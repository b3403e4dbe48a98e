import SignalCalc.Proofs.Render.Frames
import SignalCalc.Proofs.Signal.Started

/-!
# Sound files read back

A sound file is a RIFF file: after twelve bytes for the whole file come chunks, each with a name, the
size of its body, and the body.  `readWave` reads any such file.  A file that was written gives back
what it was written from (`readWave_file`): the format, and the bytes of the samples.

So a file that is written for a value holds what the value plays (`wave_readBack`).
-/

namespace SignalCalc.Render

open SignalCalc.Number
open SignalCalc.Signal
open List

/-! ## Reading files -/

/-- Some of the bytes, from a place on. -/
def bytesAt (bytes : List UInt8) (start width : ℕ) : List UInt8 := (bytes.drop start).take width

/-- A part of a file: its name, and what it holds. -/
structure Chunk where
  name : List UInt8
  body : List UInt8

/-- Chunks one after the other.  A body of odd size is followed by one more byte. -/
def readChunks (bytes : List UInt8) : Option (List Chunk) :=
  if bytes = [] then some []
  else
    let size := fromBytes (bytesAt bytes 4 4)
    if 8 + size ≤ bytes.length then
      (⟨bytesAt bytes 0 4, bytesAt bytes 8 size⟩ :: ·) <$>
        readChunks (bytes.drop (8 + size + size % 2))
    else none
termination_by bytes.length
decreasing_by
  rename_i hbytes _
  have hpos := length_pos_iff.2 hbytes
  rw [length_drop]
  omega

/-- The format of a sound file. -/
structure WaveFormat where
  tag : ℕ
  channels : ℕ
  frameRate : ℕ
  byteRate : ℕ
  frameBytes : ℕ
  sampleBits : ℕ

/-- The format in the bytes of its chunk. -/
def WaveFormat.ofBytes (bytes : List UInt8) : WaveFormat where
  tag := fromBytes (bytesAt bytes 0 2)
  channels := fromBytes (bytesAt bytes 2 2)
  frameRate := fromBytes (bytesAt bytes 4 4)
  byteRate := fromBytes (bytesAt bytes 8 4)
  frameBytes := fromBytes (bytesAt bytes 12 2)
  sampleBits := fromBytes (bytesAt bytes 14 2)

/-- The chunks of a sound file, which has to be as long as it says. -/
def riffChunks (file : List UInt8) : Option (List Chunk) :=
  if bytesAt file 0 4 = wordBytes "RIFF" ∧ 8 + fromBytes (bytesAt file 4 4) = file.length ∧
      bytesAt file 8 4 = wordBytes "WAVE" then readChunks (file.drop 12)
  else none

/-- The format of a sound file and the bytes of its samples. -/
def readWave (file : List UInt8) : Option (WaveFormat × List UInt8) := do
  let chunks ← riffChunks file
  let format ← chunks.find? (·.name = wordBytes "fmt ")
  let data ← chunks.find? (·.name = wordBytes "data")
  if 16 ≤ format.body.length then some (.ofBytes format.body, data.body) else none

/-! ## Reading what was written -/

section Parts

variable {before part : List UInt8} {start width : ℕ} (after : List UInt8)

lemma bytesAt_append (hwidth : part.length = width) : bytesAt (part ++ after) 0 width = part := by
  subst hwidth
  exact take_left

lemma bytesAt_behind (hstart : before.length ≤ start) :
    bytesAt (before ++ after) start width = bytesAt after (start - before.length) width := by
  rw [bytesAt, drop_append, drop_eq_nil_of_le hstart, nil_append, bytesAt]

lemma length_wordBytes (word : String) : (wordBytes word).length = word.toList.length :=
  length_map _

lemma bytesAt_self (hwidth : part.length = width) : bytesAt part 0 width = part := by
  subst hwidth
  exact take_length

end Parts

/-- A chunk of even size that was written in front of others is read first. -/
lemma readChunks_append {name body : List UInt8} (hname : name.length = 4)
    (hsize : body.length < 2 ^ 32) (heven : body.length % 2 = 0) (rest : List UInt8) :
    readChunks (name ++ (littleEndian 4 body.length ++ (body ++ rest))) =
      (⟨name, body⟩ :: ·) <$> readChunks rest := by
  have hne : name ++ (littleEndian 4 body.length ++ (body ++ rest)) ≠ [] :=
    append_ne_nil_of_left_ne_nil (ne_nil_of_length_pos (by omega)) _
  have hlength : 8 + body.length ≤
      (name ++ (littleEndian 4 body.length ++ (body ++ rest))).length := by
    simp only [length_append, length_littleEndian, hname]
    omega
  have hread : fromBytes
      (bytesAt (name ++ (littleEndian 4 body.length ++ (body ++ rest))) 4 4) = body.length := by
    rw [bytesAt_behind _ hname.le, hname, Nat.sub_self, bytesAt_append _ (length_littleEndian 4 _),
      fromBytes_littleEndian (by simpa using hsize)]
  have hbody : bytesAt (name ++ (littleEndian 4 body.length ++ (body ++ rest))) 8 body.length =
      body := by
    rw [bytesAt_behind _ (by omega), hname, bytesAt_behind _ (by simp), length_littleEndian,
      bytesAt_append _ rfl]
  have hrest : (name ++ (littleEndian 4 body.length ++ (body ++ rest))).drop (8 + body.length) =
      rest := by
    have hlen : 8 + body.length = (name ++ (littleEndian 4 body.length ++ body)).length := by
      simp only [length_append, length_littleEndian, hname]
      omega
    have hassoc : name ++ (littleEndian 4 body.length ++ (body ++ rest)) =
        (name ++ (littleEndian 4 body.length ++ body)) ++ rest := by
      simp only [append_assoc]
    rw [hlen, hassoc, drop_left]
  rw [readChunks, if_neg hne]
  simp only [hread, if_pos hlength, heven, Nat.add_zero, hbody, hrest, bytesAt_append _ hname]

/-- The chunks of a file that says how long it is. -/
lemma riffChunks_append {size : ℕ} {chunks : List UInt8} (hsize : size < 2 ^ 32)
    (hlength : size = 4 + chunks.length) :
    riffChunks (wordBytes "RIFF" ++ (littleEndian 4 size ++ (wordBytes "WAVE" ++ chunks))) =
      readChunks chunks := by
  have hword : (wordBytes "RIFF").length = 4 ∧ (wordBytes "WAVE").length = 4 := ⟨rfl, rfl⟩
  have hname : bytesAt (wordBytes "RIFF" ++ (littleEndian 4 size ++ (wordBytes "WAVE" ++ chunks)))
      0 4 = wordBytes "RIFF" :=
    bytesAt_append _ hword.1
  have hfield : 8 + fromBytes (bytesAt
      (wordBytes "RIFF" ++ (littleEndian 4 size ++ (wordBytes "WAVE" ++ chunks))) 4 4) =
        (wordBytes "RIFF" ++ (littleEndian 4 size ++ (wordBytes "WAVE" ++ chunks))).length := by
    rw [bytesAt_behind _ hword.1.le, hword.1, bytesAt_append _ (length_littleEndian 4 _),
      fromBytes_littleEndian (by omega)]
    simp only [length_append, length_littleEndian, hword, hlength]
    omega
  have hform : bytesAt (wordBytes "RIFF" ++ (littleEndian 4 size ++ (wordBytes "WAVE" ++ chunks)))
      8 4 = wordBytes "WAVE" := by
    rw [bytesAt_behind _ (by omega), hword.1, bytesAt_behind _ (by simp), length_littleEndian,
      bytesAt_append _ hword.2]
  have hdrop : (wordBytes "RIFF" ++ (littleEndian 4 size ++ (wordBytes "WAVE" ++ chunks))).drop 12 =
      chunks := by
    simp [drop_append, hword, drop_eq_nil_of_le]
  rw [riffChunks, if_pos ⟨hname, hfield, hform⟩, hdrop]

/-- The body of the chunk for the format. -/
def formatBytes (frameRate : ℕ) : List UInt8 :=
  littleEndian 2 1 ++ (littleEndian 2 1 ++ (littleEndian 4 frameRate ++
    (littleEndian 4 (frameRate * sampleBytes) ++ (littleEndian 2 sampleBytes ++
      littleEndian 2 (8 * sampleBytes)))))

lemma ofBytes_formatBytes {frameRate : ℕ} (hrate : frameRate * sampleBytes < 2 ^ 32) :
    WaveFormat.ofBytes (formatBytes frameRate) =
      ⟨1, 1, frameRate, frameRate * sampleBytes, sampleBytes, 8 * sampleBytes⟩ := by
  have hframes : frameRate < 256 ^ 4 := by
    rw [sampleBytes] at hrate
    omega
  have hbytes : frameRate * sampleBytes < 256 ^ 4 := by omega
  unfold WaveFormat.ofBytes formatBytes
  simp (disch := simp) only [bytesAt_behind, length_littleEndian, bytesAt_append, Nat.reduceSub]
  rw [bytesAt_self (length_littleEndian 2 _), fromBytes_littleEndian (n := 1) (by decide),
    fromBytes_littleEndian hframes, fromBytes_littleEndian hbytes,
    fromBytes_littleEndian (n := sampleBytes) (by decide), fromBytes_littleEndian (by decide)]

lemma header_eq (frameRate dataSize : ℕ) : header frameRate dataSize =
    wordBytes "RIFF" ++ (littleEndian 4 (36 + dataSize) ++ (wordBytes "WAVE" ++
      (wordBytes "fmt " ++ (littleEndian 4 (formatBytes frameRate).length ++
        (formatBytes frameRate ++ (wordBytes "data" ++ littleEndian 4 dataSize)))))) := by
  simp [header, formatBytes]

/-- **A written file is read back**: the format, and the bytes of the samples. -/
theorem readWave_file {frameRate : ℕ} {frames : List UInt8}
    (hrate : frameRate * sampleBytes < 2 ^ 32) (hsize : 36 + frames.length < 2 ^ 32)
    (heven : frames.length % 2 = 0) :
    readWave (header frameRate frames.length ++ frames) =
      some (⟨1, 1, frameRate, frameRate * sampleBytes, sampleBytes, 8 * sampleBytes⟩, frames) := by
  have hformat : (formatBytes frameRate).length = 16 := by simp [formatBytes]
  have hchunks : readChunks (wordBytes "fmt " ++ (littleEndian 4 (formatBytes frameRate).length ++
      (formatBytes frameRate ++ (wordBytes "data" ++ (littleEndian 4 frames.length ++
        (frames ++ [])))))) =
      some [⟨wordBytes "fmt ", formatBytes frameRate⟩, ⟨wordBytes "data", frames⟩] := by
    rw [readChunks_append rfl (by omega) (by omega), readChunks_append rfl (by omega) heven,
      readChunks, if_pos rfl]
    rfl
  have hfile : header frameRate frames.length ++ frames =
      wordBytes "RIFF" ++ (littleEndian 4 (36 + frames.length) ++ (wordBytes "WAVE" ++
        (wordBytes "fmt " ++ (littleEndian 4 (formatBytes frameRate).length ++
          (formatBytes frameRate ++ (wordBytes "data" ++ (littleEndian 4 frames.length ++
            (frames ++ [])))))))) := by
    simp only [header_eq, append_assoc, append_nil]
  have hriff : riffChunks (header frameRate frames.length ++ frames) =
      some [⟨wordBytes "fmt ", formatBytes frameRate⟩, ⟨wordBytes "data", frames⟩] := by
    rw [hfile, riffChunks_append hsize, hchunks]
    simp [length_wordBytes, hformat]
    omega
  have hnames : wordBytes "fmt " ≠ wordBytes "data" := by decide
  rw [readWave, hriff]
  simp [hnames, hformat, ofBytes_formatBytes hrate]

/-! ## What is written -/

lemma toList_appendBytes (bytes : ByteArray) (more : List UInt8) :
    (appendBytes bytes more).data.toList = bytes.data.toList ++ more := by
  induction more generalizing bytes with
  | nil => exact (append_nil _).symm
  | cons b rest ih =>
    rw [appendBytes, foldl_cons, ← appendBytes, ih]
    simp [ByteArray.data_push]

/-- The bytes of samples, one after the other. -/
def frameBytes (samples : List Float) : List UInt8 :=
  samples.flatMap fun x => signedBytes (toPcm x)

lemma length_frameBytes (samples : List Float) :
    (frameBytes samples).length = sampleBytes * samples.length := by
  simp [frameBytes, length_flatMap, Nat.mul_comm]

/-- A file is its header and the bytes of its samples. -/
lemma toList_waveFile (frameRate : ℕ) (samples : Array Float) :
    (waveFile frameRate samples).data.toList =
      header frameRate (sampleBytes * samples.size) ++ frameBytes samples.toList := by
  have hfold : ∀ (xs : List Float) (bytes : ByteArray),
      (xs.foldl (fun bytes x => appendBytes bytes (signedBytes (toPcm x))) bytes).data.toList =
        bytes.data.toList ++ frameBytes xs := by
    intro xs
    induction xs with
    | nil => exact fun bytes => (append_nil _).symm
    | cons x rest ih =>
      intro bytes
      rw [foldl_cons, ih, toList_appendBytes, append_assoc]
      rfl
  rw [waveFile, ← Array.foldl_toList, hfold, toList_appendBytes]
  rfl

/-- The sample at a place in the bytes of a sound file. -/
def frameAt (data : List UInt8) (i : ℕ) : Int :=
  fromSigned (bytesAt data (sampleBytes * i) sampleBytes)

/-- Every sample is read from its own bytes. -/
lemma frameAt_frameBytes {samples : List Float} {i : ℕ} {x : Float} (h : samples[i]? = some x) :
    frameAt (frameBytes samples) i = toPcm x := by
  induction samples generalizing i with
  | nil => cases h
  | cons y rest ih =>
    have hbytes : frameBytes (y :: rest) = signedBytes (toPcm y) ++ frameBytes rest := rfl
    have hlength := length_signedBytes (toPcm y)
    unfold frameAt
    rw [hbytes]
    cases i with
    | zero =>
      obtain rfl := Option.some.inj h
      have hpcm := toPcm_isPcmOf y
      rw [Nat.mul_zero, bytesAt_append _ hlength, fromSigned_signedBytes hpcm.lower hpcm.upper]
    | succ i =>
      have hstart : sampleBytes * (i + 1) - sampleBytes = sampleBytes * i := by
        rw [Nat.mul_succ, Nat.add_sub_cancel]
      rw [bytesAt_behind _ (by rw [hlength]; exact Nat.le_mul_of_pos_right _ i.succ_pos), hlength,
        hstart]
      exact ih h

/-- The count of samples is the product, cut to a whole number, or zero. -/
lemma sampleCount_eq_ok {rate seconds : Float} {count : ℕ}
    (h : sampleCount rate seconds = .ok count) :
    ∃ n, truncate? (seconds * rate) = some n ∧ count = n.toNat := by
  unfold sampleCount at h
  dsimp only at h
  split at h
  · rename_i n hn
    exact ⟨n, hn, (Except.ok.inj h).symm⟩
  · cases h

lemma play_eq_ok {n : ℕ} {stream after : Stream Float} {xs : Array Float}
    (h : play n stream = .ok (xs, after)) : xs.toList = (range n).map stream.sample := by
  unfold play at h
  split at h
  · split at h
    · rename_i hn
      obtain rfl := (Prod.ext_iff.1 (Except.ok.inj h)).1
      rw [hn]
      rfl
    · cases h
  · rw [Stream.take_eq] at h
    obtain rfl := (Prod.ext_iff.1 (Except.ok.inj h)).1
    rfl

/-- The samples of a value are those of its stream. -/
lemma samples_eq_ok {v : Value} {rate seconds : Float} {xs : Array Float}
    (h : samples v rate seconds = .ok xs) :
    ∃ s stream n, asSound v = .ok s ∧ s.stream rate = .ok stream ∧
      truncate? (seconds * rate) = some n ∧ xs.toList = (range n.toNat).map stream.sample := by
  simp only [samples, Call.Signature.bind_eq_ok_iff] at h
  obtain ⟨s, hs, stream, hstream, count, hcount, ⟨taken, after⟩, hplay, hxs⟩ := h
  obtain rfl := Except.ok.inj hxs
  obtain ⟨n, hn, rfl⟩ := sampleCount_eq_ok hcount
  refine ⟨s, stream, n, ?_, ?_, hn, play_eq_ok hplay⟩
  · cases hsound : asSound v with
    | ok s' =>
      rw [hsound] at hs
      exact congrArg Except.ok (Except.ok.inj hs)
    | error cause =>
      rw [hsound] at hs
      cases hs
  · unfold start at hstream
    split at hstream
    · rename_i stream' hstream'
      obtain rfl := Except.ok.inj hstream
      exact hstream'
    · cases hstream

/-- A file is written of samples where its frame rate is positive and its sizes have 32 bits. -/
lemma wave_eq_ok {v : Value} {rate seconds : Float} {count : ℕ} {file : ByteArray}
    (h : wave v rate seconds = .ok (count, file)) :
    ∃ xs, ∃ frameRate : ℕ, samples v rate seconds = .ok xs ∧
      truncate? rate = some (frameRate : Int) ∧
      0 < frameRate ∧ frameRate * sampleBytes < 2 ^ 32 ∧ 36 + sampleBytes * xs.size < 2 ^ 32 ∧
      count = xs.size ∧ file = waveFile frameRate xs := by
  unfold wave at h
  obtain ⟨xs, hxs, h⟩ := Call.Signature.bind_eq_ok_iff.1 h
  split at h
  · cases h
  rename_i frameRate hrate
  by_cases hpos : frameRate ≤ 0
  · rw [if_pos hpos] at h
    cases h
  rw [if_neg hpos] at h
  dsimp only at h
  split at h
  · cases h
  rename_i hfits
  simp only [Bool.or_eq_true, decide_eq_true_eq, not_or, Nat.not_le] at hfits
  obtain ⟨rfl, rfl⟩ := Prod.ext_iff.1 (Except.ok.inj h)
  exact ⟨xs, frameRate.toNat, hxs, by rw [hrate, Int.toNat_of_nonneg (by omega)], by omega,
    hfits.1, hfits.2, rfl, rfl⟩

/-- **A sound file decodes to what was played.**  A file that is written for a value has 44 bytes in
front, and four for each of the samples that the time holds.  Read back, it has one channel of 32-bit
samples, the frame rate it was written for and sizes that fit its length; and every sample in it is
the one that the stream of the value gives.  Every float has such a sample: it is in range, silence for
NaN, and cut toward zero where it is not beyond the range. -/
theorem wave_readBack {v : Value} {rate seconds : Float} {count : ℕ} {file : ByteArray}
    (h : wave v rate seconds = .ok (count, file)) :
    ∃ s stream n head data, ∃ frameRate : ℕ,
      asSound v = .ok s ∧ s.stream rate = .ok stream ∧
      truncate? (seconds * rate) = some n ∧ (count : Int) = max n 0 ∧
      truncate? rate = some (frameRate : Int) ∧ 0 < frameRate ∧
      file.data.toList = head ++ data ∧ head.length = 44 ∧ data.length = 4 * count ∧
      readWave file.data.toList = some (⟨1, 1, frameRate, 4 * frameRate, 4, 32⟩, data) ∧
      (∀ i < count, frameAt data i = toPcm (stream.sample i)) ∧
      ∀ x, IsPcmOf x (toPcm x) := by
  obtain ⟨xs, frameRate, hxs, hrate, hpos, hbytes, hsize, rfl, rfl⟩ := wave_eq_ok h
  obtain ⟨s, stream, n, hs, hstream, hn, hplayed⟩ := samples_eq_ok hxs
  have hcount : xs.size = n.toNat := by
    rw [← Array.length_toList, hplayed, length_map, length_range]
  have hlength : (frameBytes xs.toList).length = sampleBytes * xs.size := by
    rw [length_frameBytes, Array.length_toList]
  have hfile := toList_waveFile frameRate xs
  have hread : readWave (waveFile frameRate xs).data.toList =
      some (⟨1, 1, frameRate, 4 * frameRate, 4, 32⟩, frameBytes xs.toList) := by
    rw [hfile, ← hlength, readWave_file hbytes (by rwa [hlength]) ?_, Nat.mul_comm frameRate]
    · rfl
    · rw [hlength, sampleBytes]
      omega
  refine ⟨s, stream, n, _, _, frameRate, hs, hstream, hn, ?_, hrate, hpos, hfile,
    length_header _ _, hlength, hread, fun i hi => frameAt_frameBytes ?_, toPcm_isPcmOf⟩
  · rw [hcount]
    omega
  · rw [hplayed, getElem?_map, getElem?_range (hcount ▸ hi)]
    rfl

/-- A line that rises by half in every sample, and leaves the range with the fourth. -/
theorem wave_readBack_risingLine :
    ∃ file, wave (.sound (.linear 2.0 0.0)) 4.0 1.0 = .ok (4, file) ∧
      ∃ s stream n head data, ∃ frameRate : ℕ,
        asSound (.sound (.linear 2.0 0.0)) = .ok s ∧ s.stream 4.0 = .ok stream ∧
        truncate? (1.0 * 4.0) = some n ∧ ((4 : ℕ) : Int) = max n 0 ∧
        truncate? 4.0 = some (frameRate : Int) ∧ 0 < frameRate ∧
        file.data.toList = head ++ data ∧ head.length = 44 ∧ data.length = 4 * 4 ∧
        readWave file.data.toList = some (⟨1, 1, frameRate, 4 * frameRate, 4, 32⟩, data) ∧
        (∀ i < 4, frameAt data i = toPcm (stream.sample i)) ∧
        ∀ x, IsPcmOf x (toPcm x) := by
  have hwave : wave (.sound (.linear 2.0 0.0)) 4.0 1.0 =
      .ok (4, waveFile 4 #[0.0, 0.5, 1.0, 1.5]) := by
    rfl
  exact ⟨_, hwave, wave_readBack hwave⟩

end SignalCalc.Render
