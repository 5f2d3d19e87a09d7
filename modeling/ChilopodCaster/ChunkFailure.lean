import ChilopodCaster.ChunkDecode

/-!
# When the chunk decoder fails

`ntrip_chunk_decode` answers `BEV_ERROR` for a malformed chunk size, but only if the call has not
moved any payload: otherwise it answers `BEV_OK`, and fails when it is called again.

## Main definitions

* `refuses` — what the decoder fails on, by its state and the bytes that wait for it

## Main results

* `ntripChunkDecode_bevError_iff` — it fails on nothing else
-/

namespace ChilopodCaster

namespace ChunkDecode

/-- A chunk size comes first, and `sscanf` refuses it. -/
def badSize (raw : List Byte) : Bool :=
  match evbufferReadlnCrlfStrict raw with
  | none => false
  | some (line, _) => (sscanfZx (cutSizeLine line)).isNone

/-- A malformed chunk size comes before any payload, or came at the end of an earlier read. -/
def refuses (st : Session) : Bool :=
  match st.chunkState with
  | .chunkWaitLen => badSize st.rawInput
  | .chunkInProgress => st.chunkLen = 0 ∧ 2 ≤ st.rawInput.length ∧ badSize (st.rawInput.drop 2)
  | .chunkWaitingTrailer => 2 ≤ st.rawInput.length ∧ badSize (st.rawInput.drop 2)
  | .chunkErr => st.rawInput ≠ []
  | .chunkEnd => st.rawInput ≠ []
  | _ => false

theorem refuses_of_nil {st : Session} (h : st.rawInput.length = 0) : refuses st = false := by
  have hnil := List.eq_nil_of_length_eq_zero h
  rw [refuses, hnil]
  cases st.chunkState <;> simp [badSize, evbufferReadlnCrlfStrict]

/-- Whether the decoder is going to fail: never once some payload was moved. -/
def Fails (fails : Bool) (s : Session × ℕ) : Prop :=
  if s.2 = 0 then refuses s.1 = fails
  else fails = false ∧ s.1.chunkState ≠ .chunkErr ∧ s.1.chunkState ≠ .chunkEnd

/-- Where nothing is refused, the decoder does not fail. -/
theorem Fails.eq_false {fails : Bool} {st : Session} {lenDone : ℕ} (h : Fails fails (st, lenDone))
    (hrefuses : refuses st = false) : fails = false := by
  rw [Fails] at h
  split at h
  · exact h.symm.trans hrefuses
  · exact h.1

theorem trailer_or_inProgress (c : Prop) [Decidable c] :
    (if c then ChunkState.chunkWaitingTrailer else .chunkInProgress) ≠ .chunkErr ∧
      (if c then ChunkState.chunkWaitingTrailer else .chunkInProgress) ≠ .chunkEnd := by
  split <;> simp

/-- One round: the decoder fails in the end if and only if it refuses what comes first. -/
theorem fails_round (fails : Bool) (s : Session × ℕ) (h : Fails fails s) :
    Loop.Keeps ntripChunkDecodeRound (Fails fails) (fun r => r.1 = .bevError ↔ fails = true) s := by
  obtain ⟨st, lenDone⟩ := s
  have hmore : refuses st = false → ((okOrMore lenDone = .bevError) ↔ fails = true) := by
    intro hrefuses
    simp [h.eq_false hrefuses, okOrMore_ne_bevError]
  rw [Loop.Keeps, ntripChunkDecodeRound]
  dsimp only
  by_cases hraw : st.rawInput.length = 0
  · rw [if_pos hraw]
    exact hmore (refuses_of_nil hraw)
  · rw [if_neg hraw]
    have hne : st.rawInput ≠ [] := fun hnil => hraw (by rw [hnil]; rfl)
    cases hstate : st.chunkState with
    | chunkWaitLen =>
      dsimp only
      cases hread : evbufferReadlnCrlfStrict st.rawInput with
      | none => exact hmore (by simp [refuses, hstate, badSize, hread])
      | some lr =>
        dsimp only
        cases hsize : sscanfZx (cutSizeLine lr.1) with
        | none =>
          have hrefuses : refuses st = true := by simp [refuses, hstate, badSize, hread, hsize]
          rw [Fails] at h
          split at h
          · next h0 =>
            have hfails : fails = true := h.symm.trans hrefuses
            simp [show lenDone = 0 from h0, hfails]
          · next h0 => simp [show lenDone ≠ 0 from h0, h.1]
        | some chunkLen =>
          have hfails := h.eq_false (by simp [refuses, hstate, badSize, hread, hsize])
          by_cases h0 : chunkLen = 0
          · simp [Fails, refuses, hfails, h0]
          · simp [Fails, refuses, hfails, h0]
    | chunkErr =>
      rw [Fails] at h
      split at h
      · simp [← h, refuses, hstate, hne]
      · exact absurd hstate h.2.1
    | chunkInProgress =>
      dsimp only
      by_cases hused : lenDone + (if st.rawInput.length ≤ st.chunkLen then st.rawInput.length
          else st.chunkLen) = 0
      · rw [Fails, if_pos hused]
        obtain ⟨hdone, hused⟩ := Nat.add_eq_zero_iff.mp hused
        have hlen : st.chunkLen = 0 := by
          split at hused
          · omega
          · exact hused
        rw [Fails, if_pos hdone] at h
        simp only [hused, List.drop_zero, List.take_zero]
        rw [← h]
        cases st.input with
        | rawInput => simp [refuses, Session.addInput, hlen, hstate]
        | chunkBuf => simp [refuses, Session.addInput, hlen, hstate]
      · have hfails : fails = false := by
          rw [Fails] at h
          split at h
          · next h0 =>
            have hlen : st.chunkLen ≠ 0 := by
              intro hlen
              rw [if_neg (by omega)] at hused
              exact hused (by rw [hlen]; exact h0)
            rw [← h]
            simp [refuses, hstate, hlen]
          · exact h.1
        rw [Fails, if_neg hused]
        exact ⟨hfails, trailer_or_inProgress _⟩
    | chunkWaitingTrailer =>
      by_cases h2 : st.rawInput.length < 2
      · simp only [h2, if_true]
        exact hmore (by simp [refuses, hstate, h2])
      · simp only [h2, if_false]
        rw [Fails] at h ⊢
        split at h
        · next h0 =>
          rw [if_pos h0, ← h]
          simp [refuses, hstate, show 2 ≤ st.rawInput.length by omega]
        · next h0 =>
          rw [if_neg h0]
          simp [h.1]
    | chunkLast =>
      have hrefuses : refuses st = false := by simp [refuses, hstate]
      by_cases h2 : st.rawInput.length < 2
      · simp only [h2, if_true]
        exact hmore hrefuses
      · simp [h2, h.eq_false hrefuses]
    | chunkEnd =>
      rw [Fails] at h
      split at h
      · simp [← h, refuses, hstate, hne]
      · exact absurd hstate h.2.2
    | chunkNone => exact h
    | chunkInit => exact h

/-- **The decoder fails** exactly if it refuses what comes first. -/
theorem ntripChunkDecode_bevError_iff {st : Session} {r : FilterResult × Session}
    (hr : ntripChunkDecode st = some r) : r.1 = .bevError ↔ refuses st = true :=
  Loop.run_of_keeps (Fails (refuses st)) _ (fails_round (refuses st)) (by simp [Fails]) hr

end ChunkDecode

end ChilopodCaster
