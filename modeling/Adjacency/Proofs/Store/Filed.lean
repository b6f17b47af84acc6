import Adjacency.Proofs.Store.Counting
import Adjacency.Proofs.Store.Interleaving

/-!
# What a history recorded

The log of a history has every entry that its calls brought, with what became of it. Those that went
well were recorded, and the contents of a store record exactly their lists, in whatever way they were
brought and whatever other calls came between them (`Store.filed_after`).

This says more than that a store records some lists. Which id was the last one recorded for a node
can be read off the log, without looking at the store.
-/

namespace Adjacency

/-- The entries of a log that were recorded. -/
def Entry.recorded (log : List (Entry × Except Error Unit)) : List Entry :=
  (log.filter fun p ↦ p.2.isOk).map Prod.fst

theorem Entry.recorded_concat_ok (log : List (Entry × Except Error Unit)) (e : Entry) :
    recorded (log ++ [(e, .ok ())]) = recorded log ++ [e] := by
  rw [recorded, List.filter_append, List.map_append]
  rfl

theorem Entry.recorded_concat_error (log : List (Entry × Except Error Unit)) (e : Entry)
    (cause : Error) : recorded (log ++ [(e, .error cause)]) = recorded log := by
  rw [recorded, List.filter_append, List.map_append]
  exact List.append_nil _

namespace Store

/-- The entries that a history recorded, in order. -/
def recordedIn (s : Store) (calls : List Call) : List Entry :=
  Entry.recorded (allEntryLogs s calls)

/-- The store records the lists of the given entries, and there are none unless it was opened. -/
structure Filed (s : Store) (entries : List Entry) : Prop where
  records : s.Records (Entry.listed entries)
  unopened : s.lifecycle.sizing? = none → entries = []

variable {s t : Store} {entries : List Entry} {log : List (Entry × Except Error Unit)}

theorem filed_new (kind : Kind) (options : Options) : (new kind options).Filed [] :=
  ⟨records_new kind options _, fun _ ↦ rfl⟩

theorem Filed.of_eq (h : s.Filed entries) (hcontents : t.contents = s.contents)
    (hsizing : t.lifecycle.sizing? = s.lifecycle.sizing?) : t.Filed entries := by
  refine ⟨h.records.of_eq hcontents hsizing, ?_⟩
  rw [hsizing]
  exact h.unopened

theorem Filed.init (h : s.Filed entries) (totalNodes totalRels : UInt64) :
    (s.init totalNodes totalRels).state.Filed entries := by
  rcases init_cases s totalNodes totalRels with ⟨cause, -, hstate⟩ |
    ⟨sizing, -, -, hcreated, -, hloading, -, hrecords⟩
  · rw [hstate]
    exact h
  · obtain rfl := h.unopened (by rw [hcreated]; rfl)
    exact ⟨hrecords, fun _ ↦ rfl⟩

theorem Filed.add (h : s.Filed (Entry.recorded log)) (e : Entry) :
    (s.add e).state.Filed (Entry.recorded (log ++ [(e, (s.add e).result)])) := by
  rcases h.records.add_cases e with ⟨r, -, herror, hsame⟩ |
    ⟨sizing, n, -, hloading, hnext, ⟨hok, hmore⟩ | ⟨limit, requested, herror, hcontents⟩⟩
  · rw [herror, hsame, Entry.recorded_concat_error]
    exact h
  · rw [hok, Entry.recorded_concat_ok]
    refine ⟨?_, ?_⟩
    · rw [Entry.listed_concat]
      exact hmore
    · rw [hnext]
      exact nofun
  · rw [herror, Entry.recorded_concat_error]
    exact h.of_eq hcontents (by rw [hnext, hloading]; rfl)

/-- **After any history a store has filed the entries that the history recorded.** -/
theorem filed_after (kind : Kind) (options : Options) (calls : List Call) :
    (Outcome.after step (new kind options) calls).Filed (recordedIn (new kind options) calls) := by
  have hnew : (new kind options).Filed (Entry.recorded []) := filed_new kind options
  exact after_allEntryLogs (P := fun s log ↦ s.Filed (Entry.recorded log))
    (fun _ _ _ h hcontents hsizing _ ↦ h.of_eq hcontents hsizing)
    (fun _ _ totalNodes totalRels h ↦ h.init totalNodes totalRels) (fun _ _ e h ↦ h.add e) hnew
    calls

end Store

end Adjacency
