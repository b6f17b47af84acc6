import Adjacency.Proofs.Arena.Layout

/-!
# The search for a header width

A layout is searched in rounds, and nothing in a round says that it is the last: the limit of the
arena may rise and fall with the width of the header, since the number of additional blocks is
arbitrary. What rises is the width alone. Each round that fails raises it, and no number needs more
than the longest code, so a search that begins with one byte ends within `codec.maxLen` rounds.

`Search` is the search without a bound on its rounds. It ends in time, and with what `Layout.settle`
computes (`search_settle`). A search that finds a layout stayed within 64 bits in every round
(`Search.inRange`), and one that does not was refused because it left them
(`Search.exists_refusal`).
-/

namespace Adjacency

theorem Check.bind_eq_error {α β : Type} {x : Check α} {f : α → Check β} {r : Refusal} :
    x >>= f = .error r ↔ x = .error r ∨ ∃ a, x = .ok a ∧ f a = .error r := by
  cases x with
  | error r => simp [bind, Except.bind]
  | ok a => simp [bind, Except.bind]

namespace Layout

/-! ## One round -/

/-- Every sum and every product of a round is a 64-bit number. -/
structure InRange (extraBlocks : Nat → Nat → Nat) (nodes payload headerLen : Nat) : Prop where
  blockSize_le : payload + headerLen ≤ Word.max
  rootLen_le : nodes * (payload + headerLen) ≤ Word.max
  extra_le : extraBlocks (nodes * (payload + headerLen)) (payload + headerLen)
    * (payload + headerLen) ≤ Word.max
  arenaLimit_le : extraBlocks (nodes * (payload + headerLen)) (payload + headerLen)
    * (payload + headerLen) + nodes * (payload + headerLen) ≤ Word.max

variable {codec : Codec} {extraBlocks : Nat → Nat → Nat}
  {nodes payload headerLen rounds : Nat} {widths : List Nat} {l : Layout} {r : Refusal}
  {result : Check Layout}

theorem inRange_of_ofHeader (h : ofHeader extraBlocks nodes payload headerLen = .ok l) :
    InRange extraBlocks nodes payload headerLen := by
  simp only [ofHeader, Check.bind_eq_ok, within_eq_ok, Word.add?_eq_some_iff,
    Word.mul?_eq_some_iff] at h
  obtain ⟨_, ⟨rfl, hblock⟩, _, ⟨rfl, hroot⟩, _, ⟨rfl, hextra⟩, _, ⟨rfl, hlimit⟩, -⟩ := h
  exact ⟨hblock, hroot, hextra, hlimit⟩

theorem within_eq_error {what : Resource} {n : Option Nat} :
    within what nodes n = .error r ↔ n = none ∧ r = refusal what nodes := by
  cases n with
  | none => simp [within, eq_comm]
  | some k => simp [within]

theorem exists_refusal_of_ofHeader
    (h : ofHeader extraBlocks nodes payload headerLen = .error r) :
    ∃ what, r = refusal what nodes := by
  simp only [ofHeader, Check.bind_eq_error, within_eq_error] at h
  rcases h with ⟨-, hr⟩ | ⟨_, -, ⟨-, hr⟩ | ⟨_, -, ⟨-, hr⟩ | ⟨_, -, ⟨-, hr⟩ | ⟨_, -, hnever⟩⟩⟩⟩
  · exact ⟨_, hr⟩
  · exact ⟨_, hr⟩
  · exact ⟨_, hr⟩
  · exact ⟨_, hr⟩
  · cases hnever

/-! ## All rounds -/

/-- The search from a width on: the widths that are tried, and what the last round comes to. -/
inductive Search (codec : Codec) (extraBlocks : Nat → Nat → Nat) (nodes payload : Nat) :
    (headerLen : Nat) → (widths : List Nat) → Check Layout → Prop
  /-- The round leaves 64 bits. -/
  | refused {headerLen : Nat} {r : Refusal}
      (round : ofHeader extraBlocks nodes payload headerLen = .error r) :
      Search codec extraBlocks nodes payload headerLen [headerLen] (.error r)
  /-- The width suffices. -/
  | settled {headerLen : Nat} {l : Layout}
      (round : ofHeader extraBlocks nodes payload headerLen = .ok l)
      (fits : l.widest codec ≤ headerLen) :
      Search codec extraBlocks nodes payload headerLen [headerLen] (.ok l)
  /-- The width does not suffice, and the search goes on with the one that this round needed. -/
  | raised {headerLen : Nat} {l : Layout} {widths : List Nat} {result : Check Layout}
      (round : ofHeader extraBlocks nodes payload headerLen = .ok l)
      (wide : headerLen < l.widest codec)
      (rest : Search codec extraBlocks nodes payload (l.widest codec) widths result) :
      Search codec extraBlocks nodes payload headerLen (headerLen :: widths) result

/-- **The search ends, and within as many rounds as the longest code has bytes.** -/
theorem search_settle (hlen : headerLen ≤ codec.maxLen)
    (hrounds : codec.maxLen ≤ rounds + headerLen) :
    ∃ widths, Search codec extraBlocks nodes payload headerLen widths
        (settle codec extraBlocks nodes payload rounds headerLen) ∧
      widths.length + headerLen ≤ codec.maxLen + 1 := by
  induction rounds generalizing headerLen with
  | zero =>
    -- The header is as long as the longest code, so there is no other round to come.
    rw [settle]
    refine ⟨[headerLen], ?_, ?_⟩
    · cases hround : ofHeader extraBlocks nodes payload headerLen with
      | error r => exact .refused hround
      | ok l =>
        have hwidest : l.widest codec ≤ codec.maxLen := widest_le (ofHeader_eq_ok hround).2.2.2.2
        exact .settled hround (by omega)
    · rw [List.length_singleton]
      omega
  | succ rounds ih =>
    rw [settle]
    cases hround : ofHeader extraBlocks nodes payload headerLen with
    | error r =>
      refine ⟨[headerLen], .refused hround, ?_⟩
      rw [List.length_singleton]
      omega
    | ok l =>
      have hwidest : l.widest codec ≤ codec.maxLen := widest_le (ofHeader_eq_ok hround).2.2.2.2
      show ∃ widths, Search codec extraBlocks nodes payload headerLen widths
        (if l.widest codec ≤ headerLen then Except.ok l
          else settle codec extraBlocks nodes payload rounds (l.widest codec)) ∧ _
      split
      · next hfits =>
        refine ⟨[headerLen], .settled hround hfits, ?_⟩
        rw [List.length_singleton]
        omega
      · next hwide =>
        have hlt : headerLen < l.widest codec := Nat.lt_of_not_le hwide
        obtain ⟨widths, hsearch, hlength⟩ := ih hwidest (by omega)
        refine ⟨headerLen :: widths, .raised hround hlt hsearch, ?_⟩
        rw [List.length_cons]
        omega

theorem search_settle_one (codec : Codec) (extraBlocks : Nat → Nat → Nat) (nodes payload : Nat) :
    ∃ widths, Search codec extraBlocks nodes payload 1 widths
        (settle codec extraBlocks nodes payload codec.maxLen 1) ∧ widths.length ≤ codec.maxLen := by
  have hone : 1 ≤ codec.maxLen := by
    cases codec <;> decide
  obtain ⟨widths, hsearch, hlength⟩ := search_settle hone (Nat.le_add_right codec.maxLen 1)
  exact ⟨widths, hsearch, by omega⟩

namespace Search

theorem inRange (h : Search codec extraBlocks nodes payload headerLen widths (.ok l)) :
    ∀ w ∈ widths, InRange extraBlocks nodes payload w := by
  generalize hresult : (Except.ok l : Check Layout) = result at h
  induction h with
  | refused => exact nomatch hresult
  | settled round fits =>
    intro w hw
    rw [List.mem_singleton.mp hw]
    exact inRange_of_ofHeader round
  | raised round wide rest ih =>
    intro w hw
    rcases List.mem_cons.mp hw with rfl | hw
    · exact inRange_of_ofHeader round
    · exact ih hresult w hw

/-- No width is tried again, and none below the first one: every round has a block size of its own.
-/
theorem pairwise (h : Search codec extraBlocks nodes payload headerLen widths result) :
    (∀ w ∈ widths, headerLen ≤ w) ∧ widths.Pairwise (· < ·) := by
  induction h with
  | refused | settled =>
    refine ⟨fun w hw ↦ ?_, List.pairwise_singleton _ _⟩
    exact Nat.le_of_eq (List.mem_singleton.mp hw).symm
  | raised round wide rest ih =>
    obtain ⟨hle, hpairwise⟩ := ih
    refine ⟨fun w hw ↦ ?_, List.pairwise_cons.mpr ⟨fun w hw ↦ ?_, hpairwise⟩⟩
    · rcases List.mem_cons.mp hw with rfl | hw
      · exact Nat.le_refl _
      · exact Nat.le_trans (Nat.le_of_lt wide) (hle w hw)
    · exact Nat.lt_of_lt_of_le wide (hle w hw)

theorem exists_refusal (h : Search codec extraBlocks nodes payload headerLen widths (.error r)) :
    ∃ what, r = refusal what nodes := by
  generalize hresult : (Except.error r : Check Layout) = result at h
  induction h with
  | refused round =>
    cases hresult
    exact exists_refusal_of_ofHeader round
  | settled => exact nomatch hresult
  | raised round wide rest ih => exact ih hresult

end Search

end Layout

end Adjacency
