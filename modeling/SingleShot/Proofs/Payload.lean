import SingleShot.Failure

/-!
# What is in a payload

A size that passes its check has a payload, and the payload has the size and the counter that it
was built for.
-/

namespace SingleShot

variable {size : Nat} {counter : UInt64} {payload : Payload}

theorem checkSize_of_le (h : minPayloadSize ≤ size) : checkSize size = .ok () :=
  if_neg (Nat.not_lt.mpr h)

/-- The payload of a size that passes its check can be built. -/
theorem exists_benchmark (h : checkSize size = .ok ()) (counter : UInt64) :
    ∃ payload, Payload.benchmark size counter = .ok payload := by
  have hsize : minPayloadSize ≤ size := by
    unfold checkSize at h
    split at h
    · cases h
    · omega
  exact ⟨_, by rw [Payload.benchmark, Payload.benchmark?, dif_pos hsize]⟩

namespace Payload

theorem bytes_of_benchmark (h : Payload.benchmark size counter = .ok payload) :
    minPayloadSize ≤ size ∧ payload.bytes = benchmarkTag :: littleEndian 8 counter.toNat
      ++ List.replicate (size - minPayloadSize) 0 := by
  unfold Payload.benchmark benchmark? at h
  by_cases hsize : minPayloadSize ≤ size
  · rw [dif_pos hsize] at h
    cases h
    exact ⟨hsize, rfl⟩
  · rw [dif_neg hsize] at h
    cases h

theorem size_of_benchmark (h : Payload.benchmark size counter = .ok payload) :
    payload.size = size := by
  obtain ⟨hsize, hbytes⟩ := bytes_of_benchmark h
  simp only [Payload.size, hbytes, minPayloadSize, List.length_append, List.length_cons,
    length_littleEndian, List.length_replicate] at hsize ⊢
  omega

theorem counter_of_benchmark (h : Payload.benchmark size counter = .ok payload) :
    payload.counter = counter := by
  obtain ⟨-, hbytes⟩ := bytes_of_benchmark h
  have hheader : (payload.bytes.drop 1).take 8 = littleEndian 8 counter.toNat := by
    rw [hbytes, List.cons_append, List.drop_one, List.tail_cons]
    exact List.take_left' (length_littleEndian 8 _)
  have hlt : counter.toNat < Nat.pow 256 8 := counter.toNat_lt
  rw [Payload.counter, hheader, ofLittleEndian_littleEndian, Nat.mod_eq_of_lt hlt,
    UInt64.ofNat_toNat]

/-- With the counter zero there is nothing in a payload but zeros. -/
theorem bytes_of_benchmark_zero (h : Payload.benchmark size 0 = .ok payload) :
    payload.bytes = List.replicate size 0 := by
  obtain ⟨hsize, hbytes⟩ := bytes_of_benchmark h
  have hheader : benchmarkTag :: littleEndian 8 (0 : UInt64).toNat
      = List.replicate minPayloadSize 0 := by decide
  rw [hbytes, hheader, List.replicate_append_replicate, Nat.add_sub_cancel' hsize]

end Payload

end SingleShot
