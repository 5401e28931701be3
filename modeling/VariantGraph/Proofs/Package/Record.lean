import VariantGraph.Package.Record
import VariantGraph.Proofs.Table
/-!
# Records that were read are ordered

Objects are read member by member into a table, so their keys increase at every depth
(`ordered_ofText?`).
-/
namespace VariantGraph

namespace Json

mutual

/-- The invariant of JSON values: the keys of every object increase. Arrays hold no properties. -/
def Ordered : Json → Prop
  | .object members => Table.Ordered members ∧ MembersOrdered members
  | _ => True

def MembersOrdered : List (String × Json) → Prop
  | [] => True
  | (_, json) :: rest => Ordered json ∧ MembersOrdered rest

end

theorem membersOrdered_iff {members : List (String × Json)} :
    MembersOrdered members ↔ ∀ entry ∈ members, entry.2.Ordered := by
  induction members with
  | nil => exact ⟨fun _ _ h => absurd h List.not_mem_nil, fun _ => by unfold MembersOrdered; trivial⟩
  | cons member rest ih =>
    unfold MembersOrdered
    rw [List.forall_mem_cons, ih]

theorem ordered_object {members : Table Json} :
    (Json.object members).Ordered ↔ Table.Ordered members ∧ ∀ entry ∈ members, entry.2.Ordered := by
  rw [← membersOrdered_iff]
  exact Iff.of_eq (by rw [Ordered])

theorem ordered_object_insert {members : Table Json} {value : Json} (h : (Json.object members).Ordered)
    (hv : value.Ordered) (name : String) : (Json.object (members.insert name value)).Ordered := by
  rw [ordered_object] at h ⊢
  refine ⟨Table.ordered_insert h.1 name value, ?_⟩
  rintro ⟨key, json⟩ he
  rcases Table.mem_insert he with ⟨rfl, rfl⟩ | he
  · exact hv
  · exact h.2 _ he

end Json

/-- The properties of a record have increasing keys at every depth. -/
def ModuleRecord.Ordered (record : ModuleRecord) : Prop := (Json.object record.properties).Ordered

theorem mem_of_mapM_eq_some {α β : Type} {f : α → Option β} {items : List α} {results : List β}
    (h : items.mapM f = some results) {result : β} (hr : result ∈ results) :
    ∃ item ∈ items, f item = some result := by
  induction items generalizing results with
  | nil =>
    cases h
    cases hr
  | cons item items ih =>
    simp only [List.mapM_cons, Option.bind_eq_bind, Option.bind_eq_some_iff, Option.pure_def,
      Option.some.injEq] at h
    obtain ⟨first, hf, rest, hrest, rfl⟩ := h
    rcases List.mem_cons.1 hr with rfl | hr
    · exact ⟨item, List.mem_cons_self, hf⟩
    · obtain ⟨item, hi, hf⟩ := ih hrest hr
      exact ⟨item, List.mem_cons_of_mem _ hi, hf⟩

namespace RawJson

theorem ordered_decodeNumber {digits : List Char} {json : Json} (h : decodeNumber digits = some json) :
    json.Ordered := by
  cases json with
  | object members =>
    unfold decodeNumber decodeNegative decodeUnsigned at h
    grind
  | _ => unfold Json.Ordered; trivial

mutual

theorem ordered_decode (room : Nat) (raw : RawJson) (json : Json) (h : decode room raw = some json) :
    json.Ordered := by
  cases raw with
  | object members =>
    unfold decode at h
    split at h
    · cases h
    · obtain ⟨table, ht, rfl⟩ := Option.map_eq_some_iff.1 h
      refine ordered_decodeMembers _ _ members table ?_ ht
      exact Json.ordered_object.2 ⟨List.Pairwise.nil, fun _ he => absurd he List.not_mem_nil⟩
  | number digits => unfold decode at h; exact ordered_decodeNumber h
  | array items =>
    unfold decode at h
    split at h
    · cases h
    · obtain ⟨_, -, rfl⟩ := Option.map_eq_some_iff.1 h
      unfold Json.Ordered; trivial
  | string units =>
    unfold decode at h
    obtain ⟨_, -, rfl⟩ := Option.map_eq_some_iff.1 h
    unfold Json.Ordered; trivial
  | null | bool value => cases h; unfold Json.Ordered; trivial

theorem ordered_decodeMembers (room : Nat) (read : Table Json)
    (members : List (List StringUnit × RawJson)) (table : Table Json)
    (hread : (Json.object read).Ordered) (h : decodeMembers room read members = some table) :
    (Json.object table).Ordered := by
  cases members with
  | nil => cases h; exact hread
  | cons member members =>
    obtain ⟨units, raw⟩ := member
    unfold decodeMembers at h
    split at h
    · next name value hname hvalue =>
      exact ordered_decodeMembers room _ members table
        (Json.ordered_object_insert hread (ordered_decode room raw value hvalue) name) h
    · cases h

end

theorem ordered_readModule {room : Nat} {raw : RawJson} {record : ModuleRecord}
    (h : readModule room raw = some record) : record.Ordered := by
  unfold readModule at h
  simp only [Option.bind_eq_bind, Option.bind_eq_some_iff, Option.pure_def, Option.some.injEq] at h
  obtain ⟨fields, -, _, -, _, -, _, -, _, -, properties, hp, rfl⟩ := h
  unfold optionalField at hp
  split at hp
  · next raw _ =>
    unfold readProperties at hp
    split at hp
    · obtain ⟨json, hjson, hp⟩ := Option.bind_eq_some_iff.1 hp
      have hordered := ordered_decode _ _ _ hjson
      cases json <;> cases hp
      exact hordered
    · cases hp
  · cases hp
    exact Json.ordered_object.2 ⟨List.Pairwise.nil, fun _ he => absurd he List.not_mem_nil⟩

theorem exists_of_readList {α : Type} {room : Nat} {read : Nat → RawJson → Option α} {raw : RawJson}
    {items : List α} (h : readList room read raw = some items) {item : α} (hi : item ∈ items) :
    ∃ room raw, read room raw = some item := by
  unfold readList at h
  split at h
  · split at h
    · cases h
    · obtain ⟨raw, -, hr⟩ := mem_of_mapM_eq_some h hi
      exact ⟨_, raw, hr⟩
  · cases h

theorem ordered_readPackage {room : Nat} {raw : RawJson} {package : PackageRecord}
    (h : readPackage room raw = some package) : ∀ record ∈ package.modules, record.Ordered := by
  intro record hr
  unfold readPackage at h
  simp only [Option.bind_eq_bind, Option.bind_eq_some_iff, Option.pure_def, Option.some.injEq] at h
  obtain ⟨fields, -, _, -, _, -, _, -, _, -, modules, hm, rfl⟩ := h
  unfold optionalField at hm
  split at hm
  · obtain ⟨_, _, hread⟩ := exists_of_readList hm hr
    exact ordered_readModule hread
  · cases hm
    cases hr

end RawJson

/-- Whatever text records were read from, their properties have increasing keys. -/
theorem ordered_ofText? {text : String} {packages : List PackageRecord}
    (h : PackageRecord.ofText? text = some packages) :
    ∀ package ∈ packages, ∀ record ∈ package.modules, record.Ordered := by
  intro package hp
  obtain ⟨raw, -, h⟩ := Option.bind_eq_some_iff.1 h
  unfold RawJson.readPackages at h
  simp only [Option.bind_eq_bind, Option.bind_eq_some_iff] at h
  obtain ⟨_, -, _, -, h⟩ := h
  obtain ⟨_, _, hread⟩ := RawJson.exists_of_readList h hp
  exact RawJson.ordered_readPackage hread

end VariantGraph
