import Adjacency.Proofs.Store.FanOut
import Adjacency.Proofs.Store.Records
import Mathlib.Tactic.Ring

/-!
# The quota of a store that was opened

A store admits two entries for each relationship, as far as that number can be written in 64 bits.
If it could not be written, the quota would be odd, and the last relationship would be cut in half.
But nodes start with room for twice the mean number of relationships, so with that many
relationships the first block or array of each node would already be out of reach: whatever keeps
entries at all is refused its memory. The quota of an opened store is therefore even
(`Store.maxAppends_eq_of_init`).
-/

namespace Adjacency

namespace Sizing

/-- If the room of all nodes together is counted in 64 bits, then so are both ends of all
relationships. -/
theorem two_mul_totalRels_le {totalNodes totalRels minFanOut : UInt64} {initial : Nat}
    (hnodes : 0 < totalNodes.toNat)
    (hinitial : estimatedFanOut totalNodes totalRels minFanOut + 2 ≤ initial)
    (hlt : initial < 2 ^ 63) (hle : totalNodes.toNat * initial ≤ Word.max) :
    2 * totalRels.toNat ≤ Word.max := by
  have hroom : 2 * (totalRels.toNat / totalNodes.toNat) + 2 ≤ initial := by
    have hfan : estimatedFanOut totalNodes totalRels minFanOut < 2 ^ 63 := by omega
    have hmean := two_mul_div_le_estimatedFanOut hfan
    rw [Nat.max_eq_left hnodes] at hmean
    omega
  calc 2 * totalRels.toNat
      ≤ 2 * (totalNodes.toNat * (totalRels.toNat / totalNodes.toNat + 1)) :=
        Nat.mul_le_mul_left 2 (Nat.le_of_lt (Nat.lt_mul_div_succ _ hnodes))
    _ = totalNodes.toNat * (2 * (totalRels.toNat / totalNodes.toNat) + 2) := by ring
    _ ≤ totalNodes.toNat * initial := Nat.mul_le_mul_left _ hroom
    _ ≤ Word.max := hle

end Sizing

/-- Contents that keep anything give each node more bytes than its fan-out, and count the bytes of
all nodes in 64 bits. -/
theorem Contents.exists_initial_of_allocate {kind : Kind} {options : Options} {sizing : Sizing}
    {c : Contents} (hkind : kind ≠ .null) (hnodes : 0 < sizing.totalNodes.toNat)
    (hroom : 0 < sizing.fanOut * options.bytesPerEdge.toNat)
    (h : allocate kind options sizing = .ok c) :
    ∃ initial, sizing.fanOut + 2 ≤ initial ∧ initial < 2 ^ 63 ∧
      sizing.totalNodes.toNat * initial ≤ Word.max := by
  have hfan : 0 < sizing.fanOut := Nat.pos_of_mul_pos_right hroom
  have hbudget : sizing.fanOut ≤ sizing.fanOut * options.bytesPerEdge.toNat :=
    Nat.le_mul_of_pos_right _ (Nat.pos_of_mul_pos_left hroom)
  have hcode : 2 ≤ options.codec.maxLen := by cases options.codec <;> decide
  have hbound := Memory.granted_le
  rw [Word.signedMax] at hbound
  cases kind with
  | null => exact absurd rfl hkind
  | plainArray =>
    obtain ⟨a, ha, -⟩ := Check.map_eq_ok.mp h
    simp only [PlainArrays.allocate, Check.bind_eq_ok, Memory.product_eq_ok, Memory.reserve_eq_ok,
      Memory.idSize] at ha
    obtain ⟨bytes, ⟨rfl, -⟩, total, ⟨rfl, htotal⟩, -, -, -, hgranted, -⟩ := ha
    exact ⟨_, by omega, by omega, htotal⟩
  | byteArray =>
    obtain ⟨a, ha, -⟩ := Check.map_eq_ok.mp h
    simp only [CodedArrays.allocate, Check.bind_eq_ok, Memory.product_eq_ok,
      Memory.reserve_eq_ok] at ha
    obtain ⟨budget, ⟨rfl, -⟩, total, ⟨rfl, htotal⟩, -, -, -, hgranted, -⟩ := ha
    rw [Word.saturate] at htotal hgranted
    have htop : 2 ^ 63 ≤ Word.max := by decide
    exact ⟨_, by omega, by omega, htotal⟩
  | pagedBuffer =>
    obtain ⟨a, ha, -⟩ := Check.map_eq_ok.mp h
    simp only [Arena.allocate, Check.bind_eq_ok, Memory.reserve_eq_ok] at ha
    obtain ⟨l, hchoose, -, hgranted, -⟩ := ha
    have hl := Layout.sound_of_choose hchoose
    have hblock := hl.blockSize_eq
    have hone : l.blockSize ≤ sizing.totalNodes.toNat * l.blockSize :=
      Nat.le_mul_of_pos_left _ hnodes
    rw [hl.rootLen_eq] at hgranted
    have htop : 2 ^ 63 ≤ Word.max := by decide
    exact ⟨l.blockSize, by omega, by omega, by omega⟩

theorem Lifecycle.totalNodes_ne_zero {l : Lifecycle} {options : Options}
    {totalNodes totalRels : UInt64} {sizing : Sizing}
    (h : l.plan options totalNodes totalRels = .ok sizing) : totalNodes ≠ 0 := by
  rintro rfl
  obtain ⟨rfl, hvalid, -⟩ := plan_eq_ok h
  rw [plan, hvalid] at h
  cases h

namespace Store

variable {s : Store} {totalNodes totalRels : UInt64} {sizing : Sizing} {n : Nat}

theorem init_eq_ok (h : (s.init totalNodes totalRels).result = .ok ()) :
    ∃ sizing contents, s.lifecycle.plan s.options totalNodes totalRels = .ok sizing ∧
      Contents.allocate s.kind s.options sizing = .ok contents ∧
      (s.init totalNodes totalRels).state
        = { s with lifecycle := .loading sizing 0, contents := contents } := by
  rw [init] at h ⊢
  cases hplan : s.lifecycle.plan s.options totalNodes totalRels with
  | error r =>
    rw [hplan] at h
    cases h
  | ok sizing =>
    rw [hplan] at h
    dsimp only at h ⊢
    cases hcontents : Contents.allocate s.kind s.options sizing with
    | error r =>
      rw [hcontents] at h
      cases h
    | ok contents => exact ⟨sizing, contents, rfl, hcontents, rfl⟩

/-- **The quota of an opened store is even,** if it keeps anything: it is the number of both ends of
the relationships that were announced. -/
theorem maxAppends_eq_of_init (hkind : s.kind ≠ .null)
    (hinit : (s.init totalNodes totalRels).result = .ok ())
    (hloading : (s.init totalNodes totalRels).state.lifecycle = .loading sizing n) :
    sizing.maxAppends = 2 * totalRels.toNat := by
  obtain ⟨_, contents, hplan, hcontents, hstate⟩ := init_eq_ok hinit
  rw [hstate] at hloading
  cases hloading
  have hroom := Lifecycle.room_pos hplan
  have hnodes : totalNodes.toNat ≠ 0 := fun hzero ↦
    Lifecycle.totalNodes_ne_zero hplan (UInt64.toNat_inj.mp hzero)
  obtain ⟨-, -, rfl⟩ := Lifecycle.plan_eq_ok hplan
  obtain ⟨initial, hinitial, hlt, hle⟩ := Contents.exists_initial_of_allocate hkind
    (Nat.pos_of_ne_zero hnodes) hroom hcontents
  exact Word.saturate_of_le
    (Sizing.two_mul_totalRels_le (Nat.pos_of_ne_zero hnodes) hinitial hlt hle)

end Store

end Adjacency
