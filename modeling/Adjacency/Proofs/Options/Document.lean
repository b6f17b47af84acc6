import Adjacency.Options.Document

/-!
# What a document leaves open

Options are looked up at the root of a document, under four keys. What a pair or a heading brings to
the root goes under the first part of its path, and nothing under another name is touched
(`Toml.Table.find?_of_insert`, `Toml.Table.find?_of_alterAt`). So a document says nothing of a key
that no path at its root begins with, whatever stands below its headings, and an option it says
nothing of keeps its default.
-/

namespace Adjacency

namespace Toml

/-! ## One name of a table -/

namespace Table

variable {t u : Table} {key : String}

theorem find?_concat_of_ne {k : String} (h : key ≠ k) (v : Value) :
    find? (t ++ [(k, v)]) key = t.find? key := by
  rw [find?, List.lookup_append, List.lookup_cons, beq_eq_false_iff_ne.mpr h]
  exact Option.or_none

theorem find?_replace_of_ne {k : String} (h : key ≠ k) (v : Value) :
    (t.replace k v).find? key = t.find? key := by
  rw [find?_replace, if_neg h]

/-- Whether a pair extends the table or a table inside it, it does so under the first part of its
path. -/
theorem find?_of_insert {extensible : Bool} {path : List String} {v : Value}
    (h : insert extensible path v t = some u) (hkey : path.head? ≠ some key) :
    u.find? key = t.find? key := by
  match path with
  | [] => exact nomatch h
  | [k] =>
    have hne : key ≠ k := fun hk ↦ hkey (congrArg some hk.symm)
    rw [insert] at h
    split at h
    · cases h
      exact find?_concat_of_ne hne v
    · exact nomatch h
  | k :: l :: rest =>
    have hne : key ≠ k := fun hk ↦ hkey (congrArg some hk.symm)
    rw [insert] at h
    · split at h
      · obtain ⟨inner, -, rfl⟩ := Option.map_eq_some_iff.mp h
        exact find?_concat_of_ne hne _
      · obtain ⟨inner, -, rfl⟩ := Option.map_eq_some_iff.mp h
        exact find?_replace_of_ne hne _
      · obtain ⟨inner, -, rfl⟩ := Option.map_eq_some_iff.mp h
        exact find?_replace_of_ne hne _
      · split at h
        · exact nomatch h
        · obtain ⟨inner, -, rfl⟩ := Option.map_eq_some_iff.mp h
          exact find?_replace_of_ne hne _
      · exact nomatch h
    · exact nofun

theorem find?_of_alterAt {change : Option Value → Option Value} {path : List String}
    (h : alterAt change path t = some u) (hkey : path.head? ≠ some key) :
    u.find? key = t.find? key := by
  match path with
  | [] => exact nomatch h
  | [k] =>
    rw [alterAt] at h
    obtain ⟨w, -, rfl⟩ := Option.map_eq_some_iff.mp h
    exact find?_replace_of_ne (fun hk ↦ hkey (congrArg some hk.symm)) w
  | k :: l :: rest =>
    have hne : key ≠ k := fun hk ↦ hkey (congrArg some hk.symm)
    rw [alterAt] at h
    · split at h
      · obtain ⟨inner, -, rfl⟩ := Option.map_eq_some_iff.mp h
        exact find?_replace_of_ne hne _
      · exact nomatch h
      · obtain ⟨inner, -, rfl⟩ := Option.map_eq_some_iff.mp h
        exact find?_replace_of_ne hne _
      · split at h
        · exact nomatch h
        · obtain ⟨inner, -, rfl⟩ := Option.map_eq_some_iff.mp h
          exact find?_replace_of_ne hne _
      · exact nomatch h
    · exact nofun

theorem find?_of_foldlM {α : Type} {f : Table → α → Option Table} {items : List α}
    (hf : ∀ x ∈ items, ∀ t u, f t x = some u → u.find? key = t.find? key)
    (h : items.foldlM f t = some u) : u.find? key = t.find? key := by
  induction items generalizing t with
  | nil =>
    cases h
    rfl
  | cons x items ih =>
    rw [List.foldlM_cons] at h
    obtain ⟨s, hs, hrest⟩ := Option.bind_eq_some_iff.mp h
    rw [ih (fun y hy ↦ hf y (List.mem_cons_of_mem x hy)) hrest, hf x List.mem_cons_self t s hs]

end Table

/-! ## Documents -/

/-- The names that statements bring up at the root of a document. What stands below a heading is not
at the root, but the heading is. -/
def rootNames (lines : List Statement) : List String :=
  ((sections lines).1.map Prod.fst ++ (sections lines).2.map (Heading.path ∘ Prod.fst)).filterMap
    List.head?

/-- **A document says nothing of a name that it does not bring up at its root.** -/
theorem find?_ofStatements {lines : List Statement} {t : Table} {key : String}
    (h : ofStatements lines = some t) (hkey : key ∉ rootNames lines) : t.find? key = none := by
  simp only [rootNames, List.mem_filterMap, List.mem_append, not_exists, not_and] at hkey
  obtain ⟨root, hroot, hrest⟩ := Option.bind_eq_some_iff.mp h
  have hbegin : root.find? key = Table.find? [] key :=
    Table.find?_of_foldlM (fun p hp _ _ hstep ↦ Table.find?_of_insert hstep
      (hkey p.1 (Or.inl (List.mem_map_of_mem hp)))) hroot
  rw [Table.find?_of_foldlM (fun s hs _ _ hstep ↦ Table.find?_of_alterAt hstep
    (hkey s.1.path (Or.inr (List.mem_map_of_mem hs)))) hrest, hbegin]
  rfl

end Toml

namespace Options

open Toml (Table Statement)

/-- The keys that are looked up. -/
def keys : List String := ["codec", "bytes_per_edge", "min_fan_out", "arena_growth_factor"]

theorem ofTable_congr {t u : Table} (h : ∀ key ∈ keys, t.find? key = u.find? key) :
    ofTable t = ofTable u := by
  have hsetting : ∀ {α : Type} (key : String) (x : α) (decode : Toml.Value → Option α),
      key ∈ keys → setting t key x decode = setting u key x decode := by
    intro α key x decode hkey
    rw [setting, setting, h key hkey]
  simp only [keys, List.mem_cons, List.not_mem_nil, or_false] at hsetting
  rw [ofTable, ofTable, hsetting "codec" _ _ (by simp), hsetting "bytes_per_edge" _ _ (by simp),
    hsetting "min_fan_out" _ _ (by simp), hsetting "arena_growth_factor" _ _ (by simp)]

/-- **A document that says nothing of options leaves them at their defaults,** whatever else it says. -/
theorem ofTable_ofStatements {lines : List Statement} {t : Table}
    (h : Toml.ofStatements lines = some t) (hkeys : ∀ key ∈ keys, key ∉ Toml.rootNames lines) :
    ofTable t = some default := by
  have hnil : ofTable t = ofTable [] :=
    ofTable_congr fun key hkey ↦ Toml.find?_ofStatements h (hkeys key hkey)
  rw [hnil]
  rfl

/-- Options that a document sets can be used, and ask for no counters. -/
theorem ofDocument_eq_ok {document : String} {o : Options} (h : ofDocument document = .ok o) :
    o.validate = .ok () ∧ o.metrics = none := by
  rw [ofDocument] at h
  split at h
  · exact nomatch h
  · next options hread =>
    split at h
    · next hvalid =>
      cases h
      obtain ⟨t, -, ht⟩ := Option.bind_eq_some_iff.mp hread
      simp only [ofTable, Option.bind_eq_bind, Option.bind_eq_some_iff] at ht
      obtain ⟨codec, -, bytesPerEdge, -, minFanOut, -, growth, -, ho⟩ := ht
      cases ho
      exact ⟨hvalid, rfl⟩
    · exact nomatch h

end Options

end Adjacency
