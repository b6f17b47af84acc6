import Adjacency.Proofs.Arrays.Extent
import Adjacency.Proofs.Store.Phases

/-!
# The stages of a history

A call is one stage in the history of a store, or two if it brings both entries of a relationship.
In a stage at most one thing happens to totals and contents (`Store.Passes`): the store is opened,
or one id is added to the contents. So what is known of fresh contents and kept by adding an id is
known of any store that was opened (`Store.Walk.upholds`).

Stages are also the right measure of time for the arrays of a store. In one call the array of a node
may grow twice, in one stage it cannot.
-/

namespace Adjacency

/-- The array of a node has another capacity in the contents `d` than in the contents `c`. -/
def Contents.grew (c d : Contents) (n : Nat) : Bool :=
  match c.extent? n, d.extent? n with
  | some x, some y => x.capacity != y.capacity
  | _, _ => false

namespace Store

/-- The stages of a call, each with the store before it and the store after it. -/
def stages (s : Store) : Call → List (Store × Store)
  | .addRelationship r =>
    (s, (s.add r.outgoing).state) ::
      if (s.add r.outgoing).result.isOk then
        [((s.add r.outgoing).state, ((s.add r.outgoing).state.add r.incoming).state)]
      else []
  | c => [(s, (s.step c).state)]

/-- The stages of a history. -/
def allStages : Store → List Call → List (Store × Store)
  | _, [] => []
  | s, c :: calls => s.stages c ++ allStages (s.step c).state calls

/-- The array of a node has another capacity after the stage. -/
def grows (n : Nat) (stage : Store × Store) : Bool := stage.1.contents.grew stage.2.contents n

/-- How often the array of a node grew in some stages. -/
def growths (done : List (Store × Store)) (n : Nat) : Nat := done.countP (grows n)

/-- What may happen to totals and contents in one stage. -/
inductive Passes (s t : Store) : Prop
  | keeps (hoptions : t.options = s.options)
    (hsizing : t.lifecycle.sizing? = s.lifecycle.sizing?) (hcontents : t.contents = s.contents)
  | opens {totalNodes totalRels : UInt64} {sizing : Sizing} (hoptions : t.options = s.options)
    (hplan : s.lifecycle.plan s.options totalNodes totalRels = .ok sizing)
    (hsizing : t.lifecycle.sizing? = some sizing)
    (hcontents : Contents.allocate s.kind s.options sizing = .ok t.contents)
  | adds {sizing : Sizing} {node : Nat} (target : NodeId) (hoptions : t.options = s.options)
    (hopen : s.lifecycle.sizing? = some sizing) (hsizing : t.lifecycle.sizing? = some sizing)
    (hnode : node < sizing.totalNodes.toNat)
    (hcontents : t.contents = (s.contents.append node target).state)

/-- The stages lead from one store to another. -/
inductive Walk : Store → List (Store × Store) → Store → Prop
  | nil (s : Store) : Walk s [] s
  | cons {s t u : Store} {rest : List (Store × Store)} (h : s.Passes t) (hrest : Walk t rest u) :
    Walk s ((s, t) :: rest) u

variable {s t u : Store}

/-! ## One stage -/

theorem Passes.refl (s : Store) : s.Passes s := .keeps rfl rfl rfl

theorem options_append (s : Store) (node target : NodeId) :
    (s.append node target).state.options = s.options := by
  rw [append]
  cases s.lifecycle.accept node target with
  | error r => rfl
  | ok admitted =>
    dsimp only
    rcases s.contents.append admitted.1 target with ⟨result, contents, events⟩
    cases result with
    | ok trace => rfl
    | error e => rfl

theorem passes_append (s : Store) (node target : NodeId) :
    s.Passes (s.append node target).state := by
  cases haccept : s.lifecycle.accept node target with
  | error r =>
    rw [append_of_refused haccept]
    exact .refl s
  | ok admitted =>
    obtain ⟨i, l⟩ := admitted
    obtain ⟨-, hlifecycle, hcontents⟩ := append_of_accepted haccept
    obtain ⟨sizing, n, hloading, hnode, -, -, rfl, rfl⟩ := Lifecycle.accept_eq_ok.mp haccept
    refine .adds target (options_append s node target) ?_ ?_ (UInt64.lt_iff_toNat_lt.mp hnode)
      hcontents
    · rw [hloading]
      rfl
    · rw [hlifecycle]
      rfl

theorem passes_add (s : Store) (e : Entry) : s.Passes (s.add e).state := by
  rw [(add_eq s e).1]
  exact passes_append s e.node e.target

theorem passes_init (s : Store) (totalNodes totalRels : UInt64) :
    s.Passes (s.init totalNodes totalRels).state := by
  rw [init]
  cases hplan : s.lifecycle.plan s.options totalNodes totalRels with
  | error r => exact .refl s
  | ok sizing =>
    dsimp only
    cases hcontents : Contents.allocate s.kind s.options sizing with
    | error r => exact .refl s
    | ok contents => exact .opens rfl hplan rfl hcontents

theorem passes_step (s : Store) {c : Call} (hc : ∀ r, c ≠ .addRelationship r) :
    s.Passes (s.step c).state := by
  cases c with
  | init totalNodes totalRels => exact passes_init s totalNodes totalRels
  | add e => exact passes_add s e
  | addRelationship r => exact absurd rfl (hc r)
  | trace node target =>
    show s.Passes (s.trace node target).state
    rw [trace]
    split
    · exact passes_append s node target
    · exact .refl s
  | targets node =>
    show s.Passes (s.targets node).state
    rw [targets]
    cases hread : s.lifecycle.startRead node with
    | error r => exact .refl s
    | ok began => exact .keeps rfl (Lifecycle.startRead_keeps hread).1 rfl
  | chain node =>
    show s.Passes (s.chain node).state
    rw [chain]
    split
    · cases hread : s.lifecycle.startRead node with
      | error r => exact .refl s
      | ok began => exact .keeps rfl (Lifecycle.startRead_keeps hread).1 rfl
    · exact .refl s
  | close =>
    show s.Passes s.close.state
    rw [close]
    cases hclose : s.lifecycle.close with
    | error r => exact .refl s
    | ok l => exact .keeps rfl (Lifecycle.close_eq_ok hclose).1 rfl

/-! ## All stages -/

namespace Walk

variable {done rest : List (Store × Store)}

theorem single (h : s.Passes t) : Walk s [(s, t)] t := .cons h (.nil t)

theorem append (h : Walk s done t) (hrest : Walk t rest u) : Walk s (done ++ rest) u := by
  induction h with
  | nil s => exact hrest
  | cons hpass _ ih => exact .cons hpass (ih hrest)

theorem split {stage : Store × Store} (h : Walk s (done ++ stage :: rest) u) :
    Walk s done stage.1 ∧ stage.1.Passes stage.2 ∧ Walk stage.2 rest u := by
  induction done generalizing s with
  | nil =>
    cases h with
    | cons hpass hrest => exact ⟨.nil _, hpass, hrest⟩
  | cons first done ih =>
    cases h with
    | cons hpass hmore =>
      obtain ⟨hbefore, hstage, hrest⟩ := ih hmore
      exact ⟨.cons hpass hbefore, hstage, hrest⟩

theorem of_mem {stage : Store × Store} (h : Walk s rest u) (hstage : stage ∈ rest) :
    ∃ done, Walk s done stage.1 ∧ stage.1.Passes stage.2 := by
  obtain ⟨done, more, rfl⟩ := List.append_of_mem hstage
  obtain ⟨hbefore, hpass, -⟩ := h.split
  exact ⟨done, hbefore, hpass⟩

theorem induct {P : Store → List (Store × Store) → Prop}
    (hpass : ∀ s t done, P s done → s.Passes t → P t (done ++ [(s, t)])) (h : Walk s rest t)
    (hs : P s done) : P t (done ++ rest) := by
  induction h generalizing done with
  | nil s =>
    rw [List.append_nil]
    exact hs
  | cons hstage _ ih =>
    rw [List.append_cons]
    exact ih (hpass _ _ _ hs hstage)

end Walk

theorem walk_stages (s : Store) (c : Call) : Walk s (s.stages c) (s.step c).state := by
  cases c with
  | addRelationship r =>
    show Walk s _ (s.addRelationship r).state
    rw [stages]
    rcases addRelationship_cases s r with ⟨cause, herror, -, hstate⟩ | ⟨hok, -, hstate⟩
    · rw [herror, hstate]
      exact .single (passes_add s r.outgoing)
    · rw [hok, hstate]
      exact .cons (passes_add s r.outgoing) (.single (passes_add _ r.incoming))
  | init | add | trace | targets | chain | close => exact .single (passes_step s nofun)

/-- **A history is made of its stages.** -/
theorem walk_allStages (s : Store) (calls : List Call) :
    Walk s (allStages s calls) (Outcome.after step s calls) := by
  induction calls generalizing s with
  | nil => exact .nil s
  | cons c calls ih => exact (walk_stages s c).append (ih (s.step c).state)

/-! ## What stages uphold -/

/-- In a store that was opened something is known of the totals, the number of times that each array
has grown, and the contents; a store that was not opened is empty. -/
structure Upholds (kind : Kind) (options : Options)
    (Q : Sizing → (Nat → Nat) → Contents → Prop) (s : Store) (done : List (Store × Store)) :
    Prop where
  options_eq : s.options = options
  unopened : s.lifecycle.sizing? = none →
    s.contents = .empty options kind ∧ ∀ n, growths done n = 0
  opened : ∀ sizing, s.lifecycle.sizing? = some sizing → Q sizing (growths done) s.contents

variable {kind : Kind} {options : Options} {Q : Sizing → (Nat → Nat) → Contents → Prop}
  {done : List (Store × Store)}

theorem growths_concat (done : List (Store × Store)) (stage : Store × Store) (n : Nat) :
    growths (done ++ [stage]) n = growths done n + if grows n stage then 1 else 0 := by
  rw [growths, List.countP_append, List.countP_singleton, growths]

theorem grew_self (c : Contents) (n : Nat) : c.grew c n = false := by
  rw [Contents.grew]
  cases c.extent? n with
  | none => rfl
  | some x => simp

theorem extent?_empty (kind : Kind) (options : Options) (n : Nat) :
    (Contents.empty options kind).extent? n = none := by
  cases kind with
  | null => rfl
  | plainArray => rfl
  | byteArray => rfl
  | pagedBuffer => rfl

theorem reallocations_empty (kind : Kind) (options : Options) :
    (Contents.empty options kind).reallocations = 0 := by
  cases kind <;> rfl

theorem kind_empty (kind : Kind) (options : Options) :
    (Contents.empty options kind).kind = kind := by
  cases kind <;> rfl

theorem upholds_new : (new kind options).Upholds kind options Q [] :=
  ⟨rfl, fun _ ↦ ⟨rfl, fun _ ↦ rfl⟩, fun _ hsizing ↦ nomatch hsizing⟩

section

variable
  (hfresh : ∀ totalNodes totalRels sizing c,
    Lifecycle.created.plan options totalNodes totalRels = .ok sizing →
    Contents.allocate kind options sizing = .ok c → Q sizing (fun _ ↦ 0) c)
  (happend : ∀ (sizing : Sizing) growths c node target, node < sizing.totalNodes.toNat →
    Q sizing growths c →
    Q sizing (fun n ↦ growths n + if c.grew (c.append node target).state n then 1 else 0)
      (c.append node target).state)

include hfresh happend

/-- **What fresh contents have and adding an id keeps is upheld by every stage.** -/
theorem Upholds.pass (h : s.Upholds kind options Q done) (hpass : s.Passes t) :
    t.Upholds kind options Q (done ++ [(s, t)]) := by
  cases hpass with
  | keeps hoptions hsizing hcontents =>
    have hsame : growths (done ++ [(s, t)]) = growths done := by
      funext n
      rw [growths_concat, grows, hcontents, grew_self]
      rfl
    refine ⟨hoptions.trans h.options_eq, ?_, ?_⟩
    · rw [hsizing, hcontents, hsame]
      exact h.unopened
    · rw [hsizing, hcontents, hsame]
      exact h.opened
  | opens hoptions hplan hsizing hcontents =>
    obtain ⟨hcreated, -, -⟩ := Lifecycle.plan_eq_ok hplan
    obtain ⟨hempty, hzero⟩ := h.unopened (by rw [hcreated]; rfl)
    have hnone : growths (done ++ [(s, t)]) = fun _ ↦ 0 := by
      funext n
      rw [growths_concat, hzero, grows, hempty, Contents.grew, extent?_empty]
      rfl
    refine ⟨hoptions.trans h.options_eq, ?_, ?_⟩
    · rw [hsizing]
      exact nofun
    · intro sizing hopen
      rw [hsizing] at hopen
      cases hopen
      rw [hcreated, h.options_eq] at hplan
      rw [Store.kind, hempty, kind_empty, h.options_eq] at hcontents
      rw [hnone]
      exact hfresh _ _ _ _ hplan hcontents
  | @adds sizing node target hoptions hopen hsizing hnode hcontents =>
    refine ⟨hoptions.trans h.options_eq, ?_, ?_⟩
    · rw [hsizing]
      exact nofun
    · intro _ hsame
      rw [hsizing] at hsame
      cases hsame
      have hmore : growths (done ++ [(s, t)]) = fun n ↦ growths done n +
          if s.contents.grew (s.contents.append node target).state n then 1 else 0 := by
        funext n
        rw [growths_concat, grows, hcontents]
      rw [hmore, hcontents]
      exact happend _ _ _ _ _ hnode (h.opened _ hopen)

theorem Walk.upholds (h : Walk (new kind options) done s) : s.Upholds kind options Q done :=
  h.induct (P := fun s done ↦ s.Upholds kind options Q done)
    (fun _ _ _ hs hpass ↦ hs.pass hfresh happend hpass) upholds_new

end

end Store

end Adjacency
