import SignalCalc.Render.Samples

/-!
# Sound files

A file with one channel of signed 32-bit samples: a header of 44 bytes, then four bytes for each
sample, all numbers with the lowest byte first.
-/

namespace SignalCalc.Render

/-- The largest sample in a file. -/
def pcmMax : Int := 2 ^ (31 : Nat) - 1

/-- The smallest sample in a file. -/
def pcmMin : Int := -2 ^ (31 : Nat)

/-- A sample as it is written to a file: scaled, cut toward zero and kept in range; NaN is
silence. -/
def toPcm (x : Float) : Int :=
  let scaled := x * 2147483647.0
  if x.isNaN then 0
  else if scaled ≥ 2147483647.0 then pcmMax
  else if scaled ≤ -2147483648.0 then pcmMin
  else (Number.truncate? scaled).getD 0

/-- The lowest `width` bytes of a number, the lowest first. -/
def littleEndian : Nat → Nat → List UInt8
  | 0, _ => []
  | width + 1, n => UInt8.ofNat (n % 256) :: littleEndian width (n / 256)

/-- The bytes of a signed number of 32 bits. -/
def signedBytes (n : Int) : List UInt8 :=
  littleEndian 4 (n % 2 ^ (32 : Nat)).toNat

/-- The bytes of an ASCII word. -/
def wordBytes (word : String) : List UInt8 :=
  word.toList.map fun c => UInt8.ofNat c.toNat

/-- The count of bytes of a sample. -/
def sampleBytes : Nat := 4

/-- The header of a file with the given frame rate and count of sample bytes. -/
def header (frameRate dataSize : Nat) : List UInt8 :=
  wordBytes "RIFF" ++ littleEndian 4 (36 + dataSize) ++ wordBytes "WAVE" ++
    wordBytes "fmt " ++ littleEndian 4 16 ++ littleEndian 2 1 ++ littleEndian 2 1 ++
    littleEndian 4 frameRate ++ littleEndian 4 (frameRate * sampleBytes) ++
    littleEndian 2 sampleBytes ++ littleEndian 2 (8 * sampleBytes) ++
    wordBytes "data" ++ littleEndian 4 dataSize

/-- Bytes put behind those already there. -/
def appendBytes (bytes : ByteArray) (more : List UInt8) : ByteArray :=
  more.foldl ByteArray.push bytes

/-- A file of samples. -/
def waveFile (frameRate : Nat) (samples : Array Float) : ByteArray :=
  samples.foldl (fun bytes x => appendBytes bytes (signedBytes (toPcm x)))
    (appendBytes .empty (header frameRate (sampleBytes * samples.size)))

/-! ## Sizes -/

@[simp] theorem length_littleEndian (width n : Nat) : (littleEndian width n).length = width := by
  induction width generalizing n with
  | zero => rfl
  | succ width ih => simp [littleEndian, ih]

@[simp] theorem length_signedBytes (n : Int) : (signedBytes n).length = sampleBytes := by
  simp [signedBytes, sampleBytes]

/-- The header has 44 bytes. -/
theorem length_header (frameRate dataSize : Nat) : (header frameRate dataSize).length = 44 := by
  simp [header, wordBytes]

theorem size_appendBytes (bytes : ByteArray) (more : List UInt8) :
    (appendBytes bytes more).size = bytes.size + more.length := by
  induction more generalizing bytes with
  | nil => rfl
  | cons b rest ih =>
    rw [appendBytes, List.foldl_cons, ← appendBytes, ih]
    simp [Nat.add_comm, Nat.add_left_comm]

/-- A file has 44 bytes and four more for each sample. -/
theorem size_waveFile (frameRate : Nat) (samples : Array Float) :
    (waveFile frameRate samples).size = 44 + sampleBytes * samples.size := by
  have hfold (xs : List Float) (bytes : ByteArray) :
      (xs.foldl (fun bytes x => appendBytes bytes (signedBytes (toPcm x))) bytes).size =
        bytes.size + sampleBytes * xs.length := by
    induction xs generalizing bytes with
    | nil => rfl
    | cons x rest ih =>
      rw [List.foldl_cons, ih, size_appendBytes, length_signedBytes, List.length_cons]
      simp only [sampleBytes]
      omega
  rw [waveFile, ← Array.foldl_toList, hfold, size_appendBytes, length_header]
  simp

/-! ## Files of values -/

/-- The file of a value played for a time, and the count of its samples. -/
def wave (v : Value) (rate seconds : Float) : Except RenderError (Nat × ByteArray) := do
  let xs ← samples v rate seconds
  match Number.truncate? rate with
  | none => throw (if rate.isNaN then .countUndefined else .countInfinite)
  | some frameRate =>
    if frameRate ≤ 0 then
      throw .badFrameRate
    let dataSize := sampleBytes * xs.size
    if 2 ^ (32 : Nat) ≤ frameRate.toNat * sampleBytes || 2 ^ (32 : Nat) ≤ 36 + dataSize then
      throw .headerTooLarge
    return (xs.size, waveFile frameRate.toNat xs)

/-- The frame rate of files unless another is asked for. -/
def defaultRate : Float := 44100.0

end SignalCalc.Render
