import PplxGarden.Fabric.DomainGroup

/-! How transfers are cut. Ranges of peers cover every target exactly once; shards
of bytes repeat every target for each domain. -/

namespace PplxGarden.Fabric.Proofs

variable {k n : Nat}

theorem divCeil_mul (positive : 0 < k) : n ≤ k * divCeil n k := by
  have room := Nat.lt_mul_div_succ (n + k - 1) positive
  rw [Nat.mul_add] at room
  simp only [divCeil]
  omega

theorem divCeil_pos (positive : 0 < k) (some : 0 < n) : 0 < divCeil n k :=
  Nat.div_pos (by omega) positive

private theorem go_slices (positive : 0 < k) (list : List α) (rounds beg remainder : Nat)
    (ends : beg + remainder = list.length) (enough : remainder ≤ rounds * divCeil n k) (whole : remainder ≤ n) :
    (divideEvenly.go n k rounds beg remainder).flatMap (fun (first, last) => (list.drop first).take (last - first)) =
      list.drop beg := by
  induction rounds generalizing beg remainder with
  | zero =>
    rw [List.drop_eq_nil_of_le (by omega)]
    rfl
  | succ rounds ih =>
    rw [divideEvenly.go]
    rw [Nat.add_mul, Nat.one_mul] at enough
    split
    next none =>
      have empty : remainder = 0 := by
        by_contra some
        have width := divCeil_pos positive (show 0 < n by omega)
        omega
      rw [List.drop_eq_nil_of_le (by omega)]
      rfl
    next some =>
      rw [List.flatMap_cons, ih (beg + min remainder (divCeil n k)) (remainder - min remainder (divCeil n k)) (by omega)
        (by omega) (by omega)]
      simp only [Nat.add_sub_cancel_left, ← List.drop_drop]
      exact List.take_append_drop _ _

private theorem go_length (n k rounds beg remainder : Nat) :
    (divideEvenly.go n k rounds beg remainder).length ≤ rounds := by
  induction rounds generalizing beg remainder with
  | zero => exact Nat.le_refl _
  | succ rounds ih =>
    rw [divideEvenly.go]
    split
    next => exact Nat.zero_le _
    next => exact Nat.succ_le_succ (ih _ _)

theorem divideEvenly_length (n k : Nat) : (divideEvenly n k).length ≤ k := go_length n k k 0 n

theorem divideEvenly_slices (positive : 0 < k) (list : List α) :
    (divideEvenly list.length k).flatMap (fun (first, last) => (list.drop first).take (last - first)) = list := by
  have slices := go_slices positive list k 0 list.length (Nat.zero_add _) (divCeil_mul positive) (Nat.le_refl _)
  rw [List.drop_zero] at slices
  exact slices

theorem scatterWrites_peers {N : Nat} (positive : 0 < N) (dsts : List (ScatterTarget μ)) :
    scatterWrites .allDomainsShardPeers N dsts = dsts := by
  have short := divideEvenly_length dsts.length N
  have parts : ((List.range N).zip (divideEvenly dsts.length N)).map Prod.snd = divideEvenly dsts.length N :=
    List.map_snd_zip (by simpa using short)
  calc scatterWrites .allDomainsShardPeers N dsts
      = (((List.range N).zip (divideEvenly dsts.length N)).map Prod.snd).flatMap
          (fun (first, last) => (dsts.drop first).take (last - first)) := by
        simp only [scatterWrites, scatterParts, List.flatMap_map]
    _ = dsts := by rw [parts, divideEvenly_slices positive]

theorem scatterWrites_bytes (N : Nat) (dsts : List (ScatterTarget μ)) (chosen : ScatterTarget μ → Bool) :
    (scatterWrites .allDomainsShardBytes N dsts).countP chosen = N * dsts.countP chosen := by
  have parts : scatterWrites .allDomainsShardBytes N dsts = (List.range N).flatMap (fun _ => dsts) := by
    simp [scatterWrites, scatterParts, List.flatMap_map]
  rw [parts]
  clear parts
  induction N with
  | zero => simp
  | succ N ih => simp [List.range_succ, List.countP_append, ih, Nat.add_mul]

end PplxGarden.Fabric.Proofs
