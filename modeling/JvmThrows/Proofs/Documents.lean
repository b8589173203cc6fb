import JvmThrows.Cache.Document
import JvmThrows.Proofs.JsonReading

/-!
# Documents keep entries

A document that is written for the entries of a key reads back as it was, and its entries are those
that it was written for, whether or not a method belongs to the key itself
(`entries_ofBytes_render`).
-/

namespace JvmThrows

namespace Json

theorem list?_map {α : Type} (write : α → Json) {read? : Json → Option α}
    (h : ∀ a, read? (write a) = some a) (items : List α) :
    list? read? (.array (items.map write)) = some items := by
  have hmapM : (items.map write).mapM read? = some items := by
    induction items with
    | nil => rfl
    | cons a items ih => simp [List.mapM_cons, h, ih]
  exact hmapM

theorem natBelow?_ofNat {bound n : Nat} (h : n < bound) : natBelow? bound (.ofNat n) = some n := by
  simp [natBelow?, Json.ofNat, Number.ofNat, Number.natural?, h]

theorem itemsPlain_map {α : Type} {write : α → Json} (h : ∀ a, (write a).isPlain = true)
    (items : List α) : itemsPlain (items.map write) = true := by
  induction items with
  | nil => rfl
  | cons a items ih => simp [itemsPlain, h, ih]

end Json

namespace Cache

open Json

namespace MethodRecord

theorem ofJson?_toJson (r : MethodRecord) : ofJson? r.toJson = some r := by
  obtain ⟨owner, name, descriptor, exceptions⟩ := r
  have hlist : list? text? (.strings exceptions) = some exceptions :=
    list?_map .string (fun _ => rfl) _
  cases owner <;>
    simp [ofJson?, toJson, record?, field?, optional?, required?, default?, text?, hlist]

theorem isPlain_toJson (r : MethodRecord) : r.toJson.isPlain = true := by
  obtain ⟨owner, name, descriptor, exceptions⟩ := r
  have hlist : (Json.strings exceptions).isPlain = true := itemsPlain_map (fun _ => rfl) _
  cases owner <;> simp [toJson, isPlain, fieldsPlain, hlist]

end MethodRecord

namespace Document

variable (d : Document)

theorem isPlain_toJson : d.toJson.isPlain = true := by
  have hmethods := itemsPlain_map MethodRecord.isPlain_toJson d.methods
  simp [toJson, isPlain, fieldsPlain, hmethods, Json.ofNat, Number.ofNat, Number.isNatural]

theorem ofJson?_toJson (h : d.version < versionBound) : ofJson? d.toJson = some d := by
  have hmethods := list?_map MethodRecord.toJson MethodRecord.ofJson?_toJson d.methods
  simp [ofJson?, toJson, record?, field?, required?, default?, text?, hmethods, natBelow?_ofNat h]

theorem headerVersion?_toJson (h : d.version < versionBound) :
    headerVersion? d.toJson = some d.version := by
  simp [headerVersion?, toJson, record?, field?, required?, natBelow?_ofNat h]

variable (key : String) (entries : Entries)

theorem ofBytes_render :
    ofBytes (ofEntries key entries).render.toUTF8.toList = .ok (ofEntries key entries) := by
  rw [ofBytes, render, parseBytes?_pretty (isPlain_toJson _), Option.bind_some,
    ofJson?_toJson _ (by decide : schemaVersion < versionBound)]
  rfl

theorem checkHeader_render :
    checkHeader (ofEntries key entries).render.toUTF8.toList = .ok () := by
  rw [checkHeader, render, parseBytes?_pretty (isPlain_toJson _), Option.bind_some,
    headerVersion?_toJson _ (by decide : schemaVersion < versionBound)]
  rfl

/-- A record leaves out the key and gets it back. -/
theorem entries_ofEntries : (ofEntries key entries).entries = entries := by
  have hadd : ∀ (es : Entries) (p : MethodId × Exceptions),
      es.add (MethodRecord.method key
        { owner := if p.1.owner = key then none else some p.1.owner
          name := p.1.name
          descriptor := p.1.descriptor
          exceptions := p.2.toList }) (.ofList p.2.toList) = es.add p.1 p.2 := by
    rintro es ⟨⟨owner, name, descriptor⟩, exceptions⟩
    have hset : Std.ExtTreeSet.ofList exceptions.toList = exceptions :=
      Std.ExtTreeSet.ext_mem fun e => by simp
    by_cases h : owner = key <;> simp [MethodRecord.method, h, hset]
  calc (ofEntries key entries).entries
      = entries.toList.foldl (fun es p => es.add p.1 p.2) ∅ := by
        simp only [Document.entries, ofEntries, List.foldl_map, hadd]
    _ = Entries.union ∅ entries := (Std.ExtTreeMap.foldl_eq_foldl_toList ..).symm
    _ = entries := Entries.empty_union entries

/-- **Documents lose nothing.** The entries of any key read back from the document that is written
for them. -/
theorem entries_ofBytes_render :
    (ofBytes (ofEntries key entries).render.toUTF8.toList).map (·.entries) = .ok entries := by
  rw [ofBytes_render, Except.map, entries_ofEntries]

end Document

end Cache

end JvmThrows
