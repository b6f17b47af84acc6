import Adjacency.Arrays.Coded
import Adjacency.Proofs.Codec.InPlace
import Mathlib.Logic.Function.Basic

/-!
# Lists in coded arrays

The array of a node holds the codes of its ids, one behind the other, and nothing else. Adding an id
adds its code, and reading the array gives the ids back.
-/

namespace Adjacency

namespace CodedArrays

/-- The arrays hold the codes of the given lists, one for each of `nodes` nodes. -/
structure Records (a : CodedArrays) (nodes : Nat) (lists : Nat → List UInt64) : Prop where
  size_eq : a.nodes.size = nodes
  bytes_eq : ∀ n, n < nodes → (a.nodes.getD n default).bytes.toList
    = a.codec.codes .unsigned ((lists n).map fun id ↦ (id.toNat : Int))

variable {a : CodedArrays} {nodes node : Nat} {lists : Nat → List UInt64}

theorem codec_append (a : CodedArrays) (node : Nat) (target : UInt64) :
    (a.append node target).1.codec = a.codec := by
  rw [append]
  dsimp only
  split <;> rfl

theorem nodes_append (a : CodedArrays) (node : Nat) (target : UInt64) :
    (a.append node target).1.nodes = a.nodes.modify node (CodedArray.push a.codec target) := by
  rw [append]
  dsimp only
  split <;> rfl

theorem records_allocate {options : Options} {sizing : Sizing}
    (h : allocate options sizing = .ok a) : a.Records sizing.totalNodes.toNat fun _ ↦ [] := by
  simp only [allocate, Check.bind_eq_ok] at h
  obtain ⟨budget, -, total, -, -, -, -, -, h⟩ := h
  cases h
  refine ⟨Array.size_replicate, ?_⟩
  intro n hn
  rw [Array.getD_eq_getD_getElem?, Array.getElem?_replicate, if_pos hn]
  rfl

theorem Records.append (h : a.Records nodes lists) (hn : node < nodes) (target : UInt64) :
    (a.append node target).1.Records nodes
      (Function.update lists node (lists node ++ [target])) := by
  refine ⟨?_, ?_⟩
  · rw [nodes_append, Array.size_modify]
    exact h.size_eq
  · intro n hlt
    have hbytes := h.bytes_eq n hlt
    rw [Array.getD_eq_getD_getElem?] at hbytes
    rw [codec_append, nodes_append, Array.getD_eq_getD_getElem?, Array.getElem?_modify]
    rcases eq_or_ne n node with rfl | hne
    · have hsize : n < a.nodes.size := h.size_eq ▸ hlt
      have hsome : a.nodes[n]? = some a.nodes[n] := Array.getElem?_eq_getElem hsize
      rw [hsome, Option.getD_some] at hbytes
      rw [if_pos rfl, hsome, Option.map_some, Option.getD_some, Function.update_self,
        List.map_append, Codec.codes_append, ← hbytes]
      simp [CodedArray.push, Codec.pushUInt64, Codec.push, Codec.codes]
    · rw [if_neg (Ne.symm hne), Function.update_of_ne hne]
      exact hbytes

theorem Records.targets_eq (h : a.Records nodes lists) (hn : node < nodes) :
    a.targets node = .ok (lists node) := by
  have hbytes := h.bytes_eq node hn
  have hall : a.codec.getAll .unsigned (a.nodes.getD node default).bytes 0
      (a.nodes.getD node default).bytes.size
        = .ok ((lists node).map fun id ↦ (id.toNat : Int)) := by
    rw [← Array.length_toList, hbytes, ← Nat.zero_add (List.length _)]
    refine a.codec.getAll_of_standsAt ?_ (Bytes.standsAt_of_toList_eq hbytes)
    intro v hv
    obtain ⟨id, -, rfl⟩ := List.mem_map.mp hv
    exact Signedness.admits_toNat id
  rw [targets, hall]
  simp [Function.comp_def]

end CodedArrays

end Adjacency
