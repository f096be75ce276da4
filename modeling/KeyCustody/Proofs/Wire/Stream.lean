import KeyCustody.Proofs.Wire.Envelope
/-!
# Frames on a stream

A stream is either too short for a length or starts with one, and the length decides what a reader
makes of it. So a frame is read exactly if the stream starts with it and it is within the limit, and
nothing after it is touched: frames that are written one after another are read back one after
another. An envelope is never too long for the frame of a request.

## Main results

* `readFrame_ofNatLE`, `exists_length`: streams with a length in front, and all others.
* `readFrame_eq_ok`, `readFrame_eq_overLimit`: when a frame is read, and when it is over the limit.
* `readFrames_flatten`: frames one after another.
* `framing_exact`: what is read of every stream.
-/

namespace KeyCustody.Wire

variable {limit n : Nat} {data rest stream : Bytes}

/-! ### One frame -/

/-- A stream too short for a length has no frame, and is used up. -/
theorem readFrame_of_short (limit : Nat) (h : stream.length < lengthWidth) :
    readFrame limit stream = (.error .truncated, []) := by
  have hfront : (stream.take lengthWidth).length < lengthWidth := by
    rw [List.length_take]
    omega
  simp only [readFrame, if_pos hfront]

/-- What a reader makes of a stream with a length in front. -/
theorem readFrame_ofNatLE (limit : Nat) (hn : n < 256 ^ lengthWidth) (body : Bytes) :
    readFrame limit (Bytes.ofNatLE lengthWidth n ++ body) =
      if limit < n then (.error .overLimit, body)
      else if body.length < n then (.error .truncated, [])
      else (.ok (body.take n), body.drop n) := by
  have hwidth : (Bytes.ofNatLE lengthWidth n).length = lengthWidth := Bytes.length_ofNatLE ..
  simp only [readFrame, List.take_left' hwidth, List.drop_left' hwidth, hwidth,
    Bytes.toNatLE_ofNatLE_of_lt hn, lt_irrefl, if_false]

/-- A stream that is long enough starts with a length. -/
theorem exists_length (h : lengthWidth ≤ stream.length) :
    ∃ n body, n < 256 ^ lengthWidth ∧ stream = Bytes.ofNatLE lengthWidth n ++ body := by
  have hwidth : (stream.take lengthWidth).length = lengthWidth := by
    rw [List.length_take]
    omega
  have hlt := Bytes.toNatLE_lt (stream.take lengthWidth)
  have hform := Bytes.ofNatLE_toNatLE (stream.take lengthWidth)
  rw [hwidth] at hlt hform
  refine ⟨_, stream.drop lengthWidth, hlt, ?_⟩
  rw [hform, List.take_append_drop]

/-- A frame within the limit is read, and what follows it is left. -/
theorem readFrame_append (hlimit : data.length ≤ limit) (hdata : data.length < 256 ^ lengthWidth)
    (rest : Bytes) :
    readFrame limit (Bytes.ofNatLE lengthWidth data.length ++ (data ++ rest)) =
      (.ok data, rest) := by
  have hbody : ¬ (data ++ rest).length < data.length := by
    rw [List.length_append]
    omega
  rw [readFrame_ofNatLE limit hdata, if_neg (Nat.not_lt.2 hlimit), if_neg hbody, List.take_left,
    List.drop_left]

/-- **A frame is read exactly if the stream starts with it**, within the limit. -/
theorem readFrame_eq_ok : readFrame limit stream = (.ok data, rest) ↔
    data.length ≤ limit ∧ data.length < 256 ^ lengthWidth ∧
      stream = Bytes.ofNatLE lengthWidth data.length ++ (data ++ rest) := by
  constructor
  · intro h
    rcases Nat.lt_or_ge stream.length lengthWidth with hshort | hlong
    · rw [readFrame_of_short limit hshort] at h
      simp at h
    · obtain ⟨n, body, hn, rfl⟩ := exists_length hlong
      rw [readFrame_ofNatLE limit hn] at h
      split_ifs at h with hlimit hbody
      · simp at h
      · simp at h
      · obtain ⟨hdata, rfl⟩ := Prod.mk.inj h
        obtain rfl := Except.ok.inj hdata
        have hlength : (body.take n).length = n := by
          rw [List.length_take]
          omega
        rw [hlength, List.take_append_drop]
        exact ⟨by omega, hn, rfl⟩
  · rintro ⟨hlimit, hdata, rfl⟩
    exact readFrame_append hlimit hdata rest

/-- A frame is over the limit exactly if its length is, and only the length is used up. -/
theorem readFrame_eq_overLimit : readFrame limit stream = (.error .overLimit, rest) ↔
    ∃ n, limit < n ∧ n < 256 ^ lengthWidth ∧ stream = Bytes.ofNatLE lengthWidth n ++ rest := by
  constructor
  · intro h
    rcases Nat.lt_or_ge stream.length lengthWidth with hshort | hlong
    · rw [readFrame_of_short limit hshort] at h
      simp at h
    · obtain ⟨n, body, hn, rfl⟩ := exists_length hlong
      rw [readFrame_ofNatLE limit hn] at h
      split_ifs at h with hlimit hbody
      · obtain ⟨-, rfl⟩ := Prod.mk.inj h
        exact ⟨n, hlimit, hn, rfl⟩
      · simp at h
      · simp at h
  · rintro ⟨n, hlimit, hn, rfl⟩
    rw [readFrame_ofNatLE limit hn, if_pos hlimit]

/-- What is no frame and not over the limit ends early, and the stream is used up. -/
theorem readFrame_cases (limit : Nat) (stream : Bytes) :
    (∃ data rest, readFrame limit stream = (.ok data, rest)) ∨
      (∃ rest, readFrame limit stream = (.error .overLimit, rest)) ∨
      readFrame limit stream = (.error .truncated, []) := by
  rcases Nat.lt_or_ge stream.length lengthWidth with hshort | hlong
  · exact .inr (.inr (readFrame_of_short limit hshort))
  · obtain ⟨n, body, hn, rfl⟩ := exists_length hlong
    rw [readFrame_ofNatLE limit hn]
    split_ifs
    · exact .inr (.inl ⟨body, rfl⟩)
    · exact .inr (.inr rfl)
    · exact .inl ⟨_, _, rfl⟩

/-! ### Frames one after another -/

theorem encodeFrame?_of_lt (h : data.length < 256 ^ lengthWidth) :
    encodeFrame? data = .ok (Bytes.ofNatLE lengthWidth data.length ++ data) :=
  if_pos h

/-- **Frames one after another are read back one after another**, and what follows them is left. -/
theorem readFrames_flatten (frames : List Bytes)
    (h : ∀ data ∈ frames, data.length ≤ limit ∧ data.length < 256 ^ lengthWidth) :
    ∃ pieces, frames.mapM encodeFrame? = .ok pieces ∧ ∀ tail,
      readFrames limit frames.length (pieces.flatten ++ tail) = (frames.map .ok, tail) := by
  induction frames with
  | nil => exact ⟨[], rfl, fun tail => rfl⟩
  | cons data frames ih =>
    obtain ⟨⟨hlimit, hdata⟩, hframes⟩ := List.forall_mem_cons.1 h
    obtain ⟨pieces, hpieces, hread⟩ := ih hframes
    refine ⟨(Bytes.ofNatLE lengthWidth data.length ++ data) :: pieces, ?_, fun tail => ?_⟩
    · rw [List.mapM_cons, encodeFrame?_of_lt hdata, ok_bind, hpieces, ok_bind]
      rfl
    · rw [List.flatten_cons, List.append_assoc, List.append_assoc, List.length_cons, readFrames,
        readFrame_append hlimit hdata]
      simp only [hread, List.map_cons]

/-! ### Every stream -/

/-- An envelope that is sent is within the frame of a request. -/
theorem Envelope.length_le_of_encode? {env : Envelope} (h : env.encode? = .ok data) :
    data.length ≤ largestEnvelope := by
  obtain ⟨hsize, rfl⟩ := encode?_eq_ok.1 h
  exact hsize

/-- **Framing is exact.** Byte strings within the limit of the reader, and short enough for a
length, are read back one after another, and what follows them is left. Of whatever stream, a reader
gets a byte string exactly if the stream starts with its length and the byte string itself, which is
within the limit, and what follows is left; of a frame over the limit it uses up the length only;
and any other stream ends early and is used up. Every envelope that is sent arrives in the frame of
a request. -/
theorem framing_exact (limit : Nat) :
    (∀ frames : List Bytes, (∀ data ∈ frames, data.length ≤ limit ∧ data.length < 2 ^ 32) →
      ∃ pieces, frames.mapM encodeFrame? = .ok pieces ∧ ∀ tail,
        readFrames limit frames.length (pieces.flatten ++ tail) = (frames.map .ok, tail)) ∧
    (∀ stream : Bytes,
      (∀ data rest, readFrame limit stream = (.ok data, rest) ↔
        data.length ≤ limit ∧ data.length < 2 ^ 32 ∧
          stream = Bytes.ofNatLE 4 data.length ++ (data ++ rest)) ∧
      (∀ rest, readFrame limit stream = (.error .overLimit, rest) ↔
        ∃ n, limit < n ∧ n < 2 ^ 32 ∧ stream = Bytes.ofNatLE 4 n ++ rest) ∧
      ((∀ data rest, data.length ≤ limit → data.length < 2 ^ 32 →
          stream ≠ Bytes.ofNatLE 4 data.length ++ (data ++ rest)) →
        (∀ n rest, limit < n → n < 2 ^ 32 → stream ≠ Bytes.ofNatLE 4 n ++ rest) →
        readFrame limit stream = (.error .truncated, []))) ∧
    ∀ (env : Envelope) (data : Bytes), env.encode? = .ok data →
      ∃ frame, encodeFrame? data = .ok frame ∧ ∀ tail,
        readFrame largestEnvelope (frame ++ tail) = (.ok data, tail) := by
  refine ⟨fun frames => readFrames_flatten frames, fun stream => ⟨fun data rest => readFrame_eq_ok,
    fun rest => readFrame_eq_overLimit, fun hframe hover => ?_⟩, fun env data hdata => ?_⟩
  · rcases readFrame_cases limit stream with ⟨data, rest, h⟩ | ⟨rest, h⟩ | h
    · obtain ⟨hlimit, hlength, hstream⟩ := readFrame_eq_ok.1 h
      exact absurd hstream (hframe data rest hlimit hlength)
    · obtain ⟨n, hlimit, hn, hstream⟩ := readFrame_eq_overLimit.1 h
      exact absurd hstream (hover n rest hlimit hn)
    · exact h
  · have hlimit := Envelope.length_le_of_encode? hdata
    have hlength : data.length < 256 ^ lengthWidth := lt_of_le_of_lt hlimit (by decide)
    refine ⟨_, encodeFrame?_of_lt hlength, fun tail => ?_⟩
    rw [List.append_assoc]
    exact readFrame_append hlimit hlength tail

/-- An envelope of few octets that is not signed. -/
def unsignedNote : Envelope :=
  ⟨protocolVersion, "a", "b", 5, "m", false, .relayRequest, [1, 2], []⟩

/-- Two frames on a stream, a stream that ends within a length, and the frame of an envelope. -/
theorem short_frames_exact :
    (∃ pieces, [[1, 2, 3], []].mapM encodeFrame? = .ok pieces ∧
      pieces.flatten = [3, 0, 0, 0, 1, 2, 3, 0, 0, 0, 0] ∧
      readFrames 3 2 (pieces.flatten ++ [9, 9]) = ([.ok [1, 2, 3], .ok []], [9, 9])) ∧
    readFrame 3 [1, 0, 0] = (.error .truncated, []) ∧
    ∃ data frame, unsignedNote.encode? = .ok data ∧ encodeFrame? data = .ok frame ∧
      readFrame largestEnvelope (frame ++ [9]) = (.ok data, [9]) := by
  obtain ⟨hframes, hstream, henvelope⟩ := framing_exact 3
  have hdata : unsignedNote.encode? = .ok unsignedNote.octets :=
    Envelope.encode?_eq_ok.2 ⟨by decide, rfl⟩
  refine ⟨?_, ?_, ?_⟩
  · obtain ⟨pieces, hpieces, hread⟩ := hframes [[1, 2, 3], []] (by decide)
    obtain rfl : _ = pieces := Except.ok.inj hpieces
    exact ⟨_, rfl, rfl, hread [9, 9]⟩
  · refine (hstream [1, 0, 0]).2.2 (fun data rest _ _ h => ?_) fun n rest _ _ h => ?_
    · have := congrArg List.length h
      simp at this
      omega
    · have := congrArg List.length h
      simp at this
      omega
  · obtain ⟨frame, hframe, hread⟩ := henvelope unsignedNote _ hdata
    exact ⟨_, frame, hdata, hframe, hread [9]⟩

end KeyCustody.Wire
