import VariantGraph.Proofs.Json.Compact
import VariantGraph.Resolved
/-!
# The hash stands for the resolved graph

Two resolved graphs with one text are the same graph (`ResolvedGraph.text_injective`): every part has a written
form of its own, and nothing but strings, integers and truth values is written. So what the hash of a
graph leaves open is only what SHA-256 cut to twenty digits leaves open
(`ResolvedGraph.text_determines_graph`).
-/
namespace VariantGraph

/-! ## Parts -/

theorem Json.ofStrings_injective : Function.Injective Json.ofStrings := fun _ _ h =>
  List.map_injective_iff.2 (fun _ _ => string.inj) (array.inj h)

theorem Variations.strings_inj {variations others : Variations}
    (h : variations.mapValues Json.string = others.mapValues Json.string) : variations = others :=
  List.map_injective_iff.2
    (fun _ _ he => Prod.ext (Prod.mk.inj he).1 (Json.string.inj (Prod.mk.inj he).2)) h

@[simp] theorem Json.exact_ofStrings (items : List String) : (Json.ofStrings items).Exact := by
  simp [ofStrings]

theorem Variations.exact_of_mem (variations : Variations) (axis : String) (json : Json)
    (h : (axis, json) ∈ variations.mapValues Json.string) : json.Exact := by
  obtain ⟨entry, -, heq⟩ := List.mem_map.1 h
  exact (Prod.mk.inj heq).2 ▸ .string entry.2

theorem Role.key_injective : Function.Injective Role.key := fun role other h =>
  Option.some_inj.1 (ofKey?_key role ▸ h ▸ ofKey?_key other)

/-! ## Property trees -/

namespace Value

mutual

theorem exact_toJson : (value : Value) → value.toJson.Exact
  | .bool value => .bool value
  | .int value => .int value
  | .string value => .string value
  | .list items => Json.exact_ofStrings items
  | .map fields => .object (exact_fieldsToJson fields)

theorem exact_fieldsToJson : (fields : Properties) → ∀ member ∈ fieldsToJson fields, member.2.Exact
  | [] => by simp [fieldsToJson]
  | (_, value) :: rest => List.forall_mem_cons.2 ⟨exact_toJson value, exact_fieldsToJson rest⟩

end

mutual

/-- No two values are written alike, though nothing says of what kind they are. -/
theorem toJson_inj {value other : Value} (h : value.toJson = other.toJson) : value = other := by
  match value, other with
  | .bool _, .bool _ => rw [Json.bool.inj h]
  | .int _, .int _ => rw [Json.int.inj h]
  | .string _, .string _ => rw [Json.string.inj h]
  | .list _, .list _ => rw [Json.ofStrings_injective h]
  | .map _, .map _ => rw [fieldsToJson_inj (Json.object.inj h)]
  | .bool _, .int _ | .bool _, .string _ | .bool _, .list _ | .bool _, .map _
  | .int _, .bool _ | .int _, .string _ | .int _, .list _ | .int _, .map _
  | .string _, .bool _ | .string _, .int _ | .string _, .list _ | .string _, .map _
  | .list _, .bool _ | .list _, .int _ | .list _, .string _ | .list _, .map _
  | .map _, .bool _ | .map _, .int _ | .map _, .string _ | .map _, .list _ => simp [toJson, Json.ofStrings] at h

theorem fieldsToJson_inj {fields others : Properties} (h : fieldsToJson fields = fieldsToJson others) :
    fields = others := by
  match fields, others with
  | [], [] => rfl
  | (name, value) :: rest, (name', value') :: rest' =>
    simp only [fieldsToJson, List.cons.injEq, Prod.mk.injEq] at h
    rw [h.1.1, toJson_inj h.1.2, fieldsToJson_inj h.2]
  | [], _ :: _ | _ :: _, [] => simp [fieldsToJson] at h

end

end Value

@[simp] theorem Properties.exact_toJson (props : Properties) : props.toJson.Exact :=
  (Value.map props).exact_toJson

/-! ## Entries -/

@[simp] theorem ResolvedDependency.exact_toJson (dependency : ResolvedDependency) : dependency.toJson.Exact := by
  simpa [toJson] using dependency.variations.exact_of_mem

theorem ResolvedDependency.toJson_injective : Function.Injective toJson := by
  rintro ⟨role, name, package, variations⟩ ⟨role', name', package', variations'⟩ h
  simp only [toJson, Json.object.injEq, List.cons.injEq, Prod.mk.injEq, Json.string.injEq, true_and,
    and_true] at h
  obtain ⟨hrole, rfl, rfl, hvariations⟩ := h
  rw [Role.key_injective hrole, Variations.strings_inj hvariations]

@[simp] theorem ExternalStatus.exact_toJson (status : ExternalStatus) : status.toJson.Exact := by
  cases hlabel : status.label <;> simp [toJson, hlabel]

/-- That no label is written for none is as good as a label: the object is shorter then. -/
theorem ExternalStatus.toJson_injective : Function.Injective toJson := by
  rintro ⟨converted, delegated, label⟩ ⟨converted', delegated', label'⟩ h
  cases label <;> cases label' <;> simp_all [toJson]

@[simp] theorem ResolvedVariant.exact_toJson (variant : ResolvedVariant) : variant.toJson.Exact := by
  simpa [toJson] using variant.variations.exact_of_mem

theorem ResolvedVariant.toJson_injective : Function.Injective toJson := by
  rintro ⟨name, type, package, variations, properties, dependencies, visibility, checked, external⟩
    ⟨name', type', package', variations', properties', dependencies', visibility', checked', external'⟩ h
  simp only [toJson, Properties.toJson, Json.object.injEq, List.cons.injEq, Prod.mk.injEq,
    Json.string.injEq, Json.array.injEq, Json.bool.injEq, true_and, and_true] at h
  obtain ⟨rfl, rfl, rfl, hvariations, hproperties, hdependencies, hvisibility, rfl, hexternal⟩ := h
  rw [Variations.strings_inj hvariations, Value.fieldsToJson_inj hproperties,
    List.map_injective_iff.2 ResolvedDependency.toJson_injective hdependencies,
    Json.ofStrings_injective hvisibility, ExternalStatus.toJson_injective hexternal]

/-! ## Graphs -/

namespace ResolvedGraph

theorem exact_toJson (graph : ResolvedGraph) : graph.toJson.Exact := by
  simp [toJson]

theorem toJson_injective : Function.Injective toJson := by
  rintro ⟨variants⟩ ⟨variants'⟩ h
  simp only [toJson, Json.object.injEq, List.cons.injEq, Prod.mk.injEq, Json.array.injEq, true_and,
    and_true] at h
  rw [List.map_injective_iff.2 ResolvedVariant.toJson_injective h]

theorem text_injective : Function.Injective text := fun graph other h =>
  toJson_injective (Json.compact_inj graph.exact_toJson other.exact_toJson h)

/-- The message that is hashed: the bytes of the text. -/
def message (graph : ResolvedGraph) : List UInt8 := graph.text.toUTF8.data.toList

theorem message_injective : Function.Injective message := fun _ _ h =>
  text_injective (String.toByteArray_inj.1 (ByteArray.ext (Array.toList_inj.1 h)))

end ResolvedGraph

/-- Whether two messages differ though the first twenty digits of their hashes are the same. -/
def Sha256.Collide (message other : List UInt8) : Prop :=
  message ≠ other ∧
    ((digest message).flatMap hexWord).take 20 = ((digest other).flatMap hexWord).take 20

namespace ResolvedGraph

/-- **The hashed text determines the graph.** Two graphs that differ share a hash only if their messages
collide. -/
theorem text_determines_graph :
    Function.Injective text ∧
      ∀ graph other : ResolvedGraph,
        graph.hash = other.hash ↔ graph = other ∨ Sha256.Collide graph.message other.message := by
  refine ⟨text_injective, fun graph other => ?_⟩
  have hdigits : graph.hash = other.hash ↔
      ((Sha256.digest graph.message).flatMap Sha256.hexWord).take 20 =
        ((Sha256.digest other.message).flatMap Sha256.hexWord).take 20 := by
    simp [hash, shortHash, Sha256.hex, message, String.ofList_inj]
  rw [hdigits]
  constructor
  · intro h
    by_cases hmessage : graph.message = other.message
    · exact .inl (message_injective hmessage)
    · exact .inr ⟨hmessage, h⟩
  · rintro (rfl | ⟨-, h⟩)
    · rfl
    · exact h

end ResolvedGraph
end VariantGraph
