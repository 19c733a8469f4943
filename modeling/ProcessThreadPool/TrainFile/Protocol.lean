import ProcessThreadPool.Lib.IntCodec
import ProcessThreadPool.Lib.SegmentedStream

/-!
# The train file protocol

The server of `wd_ThreadPool` sends a file as a sequence of trains: an `int` that says how
long the car is, and so many bytes. The first car is the file name, the second the size of
the file, the following ones its content, and an empty one ends it. `transFile` and
`recvFile` are written independently of each other and agree only on the layout of `int`
and `off_t`.
-/

namespace ProcessThreadPool

namespace TrainFile

open IntCodec SegmentedStream

/-- How `int` and `off_t` are laid out in memory, the same on both sides. -/
structure Layout where
  int : Codec 4
  offT : Codec 8

/-- The layout of a little-endian machine. -/
def Layout.littleEndian : Layout := ⟨IntCodec.littleEndian 4, IntCodec.littleEndian 8⟩

/-- The size of `data` in `train_t`. -/
def carSize : ℕ := 1000

/-! ## The server -/

/-- The bytes of `"file1"`. -/
def fileName : List UInt8 := [102, 105, 108, 101, 49]

/-- What a `read` of the file does. It returns no bytes at the end of the file. -/
inductive ReadOutcome where
  | bytes (chunk : List UInt8)
  | failed
  deriving DecidableEq, Repr

/-- `send` of a train: `sizeof(train.length) + train.length` bytes from its beginning. -/
def sendTrain (layout : Layout) (length : ℤ) (data : List UInt8) : List UInt8 :=
  (layout.int.encode length ++ data).take (4 + length).toNat

/-- The loop of `transFile`, and the bytes it sends. After a failed `read` the length is
`-1`, and the loop goes on. -/
def sendChunks (layout : Layout) : List ReadOutcome → List UInt8
  | [] => sendTrain layout 0 []
  | .failed :: reads => sendTrain layout (-1) [] ++ sendChunks layout reads
  | .bytes chunk :: reads =>
      sendTrain layout chunk.length chunk ++
        if chunk.length = 0 then [] else sendChunks layout reads

/-- `transFile`, and the bytes it sends. `filesize` is `st_size`. -/
def transFile (layout : Layout) (filesize : ℤ) (reads : List ReadOutcome) : List UInt8 :=
  sendTrain layout fileName.length fileName ++
    (sendTrain layout 8 (layout.offT.encode filesize) ++ sendChunks layout reads)

/-! ## The client -/

/-- Why `recvFile` does not get to its end: the stream has nothing more, a `memcpy` or a
`recv` leaves its buffer, or more rounds are needed. -/
inductive Failure where
  | blocked
  | overrun
  | unfinished
  deriving DecidableEq, Repr

/-- `recvn`. `recv` gets at most what is still missing, and for a negative length the loop
is not entered. -/
def recvn (length : ℤ) (segments : List (List UInt8)) :
    Except Failure (List UInt8 × List (List UInt8)) :=
  match pullAll length.toNat segments with
  | none => .error .blocked
  | some r => .ok r

/-- The loop of `recvn`: what one `recv` has got is not asked for again. -/
theorem recvn_of_pos {length : ℤ} (hpos : 0 < length) (segments : List (List UInt8)) :
    recvn length segments = match pull length.toNat segments with
      | none => .error .blocked
      | some (bytes, rest) =>
          (recvn (length - bytes.length) rest).map fun r => (bytes ++ r.1, r.2) := by
  obtain ⟨n, hn⟩ : ∃ n, length.toNat = n + 1 := ⟨length.toNat - 1, by omega⟩
  rw [recvn, hn, pullAll_succ]
  cases pull (n + 1) segments with
  | none => rfl
  | some r =>
      have hmissing : (length - r.1.length).toNat = n + 1 - r.1.length := by omega
      simp only [Option.bind_some, recvn, hmissing]
      cases pullAll (n + 1 - r.1.length) r.2 <;> rfl

/-- `recvn` of `train.length`. -/
def recvLength (layout : Layout) (segments : List (List UInt8)) :
    Except Failure (ℤ × List (List UInt8)) :=
  match recvn 4 segments with
  | .error e => .error e
  | .ok (bytes, rest) => .ok (layout.int.decode bytes, rest)

/-- `recvn` of `train.data`. -/
def recvData (length : ℤ) (segments : List (List UInt8)) :
    Except Failure (List UInt8 × List (List UInt8)) :=
  if (carSize : ℤ) < length then .error .overrun else recvn length segments

/-- A train whose content is copied with `memcpy`. -/
def recvTrain (layout : Layout) (segments : List (List UInt8)) :
    Except Failure (List UInt8 × List (List UInt8)) :=
  match recvLength layout segments with
  | .error e => .error e
  | .ok (length, rest) => if length < 0 then .error .overrun else recvData length rest

/-- `current` and `lastsize`, and the values of `current` for which a percentage was
printed. -/
structure Progress where
  current : ℤ
  lastsize : ℤ
  shown : List ℤ
  deriving DecidableEq, Repr

/-- The progress after a length was read. -/
def Progress.add (p : Progress) (filesize length : ℤ) : Progress :=
  let current := p.current + length
  if filesize.tdiv 10000 < current - p.lastsize then ⟨current, current, p.shown ++ [current]⟩
  else { p with current := current }

/-- What `recvFile` has done: the name it opened, the size it got, the bytes it wrote, and
the progress it showed. -/
structure Received where
  opened : List UInt8
  filesize : ℤ
  written : List UInt8
  progress : Progress
  deriving DecidableEq, Repr

/-- At most `fuel` rounds of the loop of `recvFile`. With a negative length `write`
fails. -/
def recvChunks (layout : Layout) : ℕ → Received → List (List UInt8) → Except Failure Received
  | 0, _, _ => .error .unfinished
  | fuel + 1, r, segments =>
      match recvLength layout segments with
      | .error e => .error e
      | .ok (length, rest) =>
          let counted := { r with progress := r.progress.add r.filesize length }
          if length = 0 then .ok counted
          else
            match recvData length rest with
            | .error e => .error e
            | .ok (data, rest) =>
                recvChunks layout fuel { counted with written := counted.written ++ data } rest

/-- `recvFile`. The name is a string, so `open` sees it up to the first zero, and its
buffer is zeroed. A size train of less than 8 bytes leaves the last ones of `filesize` as they
are, `uninit`; a longer one overruns it. -/
def recvFile (layout : Layout) (uninit : ℤ) (fuel : ℕ) (segments : List (List UInt8)) :
    Except Failure Received :=
  match recvTrain layout segments with
  | .error e => .error e
  | .ok (name, rest) =>
      match recvTrain layout rest with
      | .error e => .error e
      | .ok (size, rest) =>
          if 8 < size.length then .error .overrun
          else
            let filesize := size ++ (layout.offT.encode uninit).drop size.length
            recvChunks layout fuel
              ⟨name.takeWhile (· ≠ 0), layout.offT.decode filesize, [], ⟨0, 0, []⟩⟩ rest

/-! ## The round trip -/

section RoundTrip

variable {layout : Layout} {segments : List (List UInt8)} {data rest : List UInt8}

/-- A train with all of its car. -/
theorem sendTrain_eq (layout : Layout) (data : List UInt8) :
    sendTrain layout data.length data = layout.int.encode data.length ++ data := by
  have hlength : (layout.int.encode data.length ++ data).length ≤
      (4 + (data.length : ℤ)).toNat := by
    rw [List.length_append, layout.int.length_encode]
    omega
  rw [sendTrain, List.take_of_length_le hlength]

theorem recvn_of_flatten (h : segments.flatten = data ++ rest) :
    ∃ segments', recvn data.length segments = .ok (data, segments') ∧
      segments'.flatten = rest := by
  obtain ⟨segments', hpull, hrest⟩ := pullAll_of_flatten h
  refine ⟨segments', ?_, hrest⟩
  rw [recvn, Int.toNat_natCast, hpull]

theorem recvLength_of_flatten {length : ℕ} (hlength : length ≤ carSize)
    (h : segments.flatten = layout.int.encode length ++ rest) :
    ∃ segments', recvLength layout segments = .ok ((length : ℤ), segments') ∧
      segments'.flatten = rest := by
  obtain ⟨segments', hrecv, hrest⟩ := recvn_of_flatten h
  rw [layout.int.length_encode] at hrecv
  have hrange : (length : ℤ) ≤ 1000 := by exact_mod_cast hlength
  refine ⟨segments', ?_, hrest⟩
  rw [recvLength, show (4 : ℤ) = ((4 : ℕ) : ℤ) from rfl, hrecv]
  simp only [layout.int.decode_encode length (by omega) (by omega)]

theorem recvData_of_flatten (hlength : data.length ≤ carSize)
    (h : segments.flatten = data ++ rest) :
    ∃ segments', recvData data.length segments = .ok (data, segments') ∧
      segments'.flatten = rest := by
  rw [recvData, if_neg (by omega)]
  exact recvn_of_flatten h

/-- The client is at the next train when it has read one. -/
theorem recvTrain_of_flatten (hlength : data.length ≤ carSize)
    (h : segments.flatten = sendTrain layout data.length data ++ rest) :
    ∃ segments', recvTrain layout segments = .ok (data, segments') ∧
      segments'.flatten = rest := by
  rw [sendTrain_eq, List.append_assoc] at h
  obtain ⟨segments', hrecv, hrest⟩ := recvLength_of_flatten hlength h
  rw [recvTrain, hrecv]
  simp only [if_neg (show ¬ (data.length : ℤ) < 0 by omega)]
  exact recvData_of_flatten hlength hrest

/-- The loop of the client writes the chunks one after the other and ends at the empty
train. -/
theorem recvChunks_sendChunks (chunks : List (List UInt8))
    (hchunks : ∀ chunk ∈ chunks, 0 < chunk.length ∧ chunk.length ≤ carSize) (fuel : ℕ)
    (hfuel : chunks.length < fuel) (r : Received)
    (h : segments.flatten = sendChunks layout (chunks.map .bytes)) :
    ∃ progress, recvChunks layout fuel r segments = .ok { r with
      written := r.written ++ chunks.flatten
      progress := progress } := by
  obtain ⟨fuel, rfl⟩ : ∃ more, fuel = more + 1 := ⟨fuel - 1, by omega⟩
  induction chunks generalizing segments fuel r with
  | nil =>
      have hend : segments.flatten = layout.int.encode ((0 : ℕ) : ℤ) ++ [] :=
        h.trans (sendTrain_eq layout [])
      obtain ⟨segments', hrecv, -⟩ := recvLength_of_flatten (Nat.zero_le _) hend
      refine ⟨r.progress.add r.filesize 0, ?_⟩
      rw [recvChunks, hrecv]
      simp only [Nat.cast_zero, if_true, List.flatten_nil, List.append_nil]
  | cons chunk chunks ih =>
      obtain ⟨⟨hpos, hle⟩, hrest⟩ := List.forall_mem_cons.mp hchunks
      rw [List.map_cons, sendChunks, if_neg hpos.ne', sendTrain_eq, List.append_assoc] at h
      obtain ⟨afterLength, hlength, h⟩ := recvLength_of_flatten hle h
      obtain ⟨afterData, hdata, h⟩ := recvData_of_flatten hle h
      rw [List.length_cons] at hfuel
      obtain ⟨fuel, rfl⟩ : ∃ more, fuel = more + 1 := ⟨fuel - 1, by omega⟩
      -- The rest of the stream is what the server sends for the other chunks.
      obtain ⟨progress, hdone⟩ := ih hrest { r with
        written := r.written ++ chunk
        progress := r.progress.add r.filesize chunk.length } h fuel (by omega)
      refine ⟨progress, ?_⟩
      rw [recvChunks, hlength]
      simp only [if_neg (show (chunk.length : ℤ) ≠ 0 by omega), hdata, hdone,
        List.flatten_cons, List.append_assoc]

/-- Whatever the file contains, however it is read, and however the stream is cut, the
client opens the name that was sent, gets the size that was sent, and writes the content
of the file, after one round more than there were chunks. -/
theorem recvFile_transFile (layout : Layout) (uninit filesize : ℤ)
    (hsize : -(2 ^ 63) ≤ filesize ∧ filesize < 2 ^ 63) (content : List UInt8)
    (chunks : List (List UInt8)) (hcontent : chunks.flatten = content)
    (hchunks : ∀ chunk ∈ chunks, 0 < chunk.length ∧ chunk.length ≤ carSize)
    (segments : List (List UInt8))
    (hsegments : segments.flatten = transFile layout filesize (chunks.map .bytes)) (fuel : ℕ)
    (hfuel : chunks.length < fuel) :
    ∃ progress, recvFile layout uninit fuel segments =
      .ok ⟨fileName, filesize, content, progress⟩ := by
  have hoff := layout.offT.length_encode filesize
  have height : sendTrain layout 8 (layout.offT.encode filesize) =
      sendTrain layout (layout.offT.encode filesize).length (layout.offT.encode filesize) := by
    rw [hoff]
    rfl
  rw [transFile, height] at hsegments
  obtain ⟨afterName, hname, hrest⟩ := recvTrain_of_flatten (by decide) hsegments
  obtain ⟨afterSize, hsizeRead, hrest⟩ := recvTrain_of_flatten (by rw [hoff]; decide) hrest
  obtain ⟨progress, hdone⟩ := recvChunks_sendChunks chunks hchunks fuel hfuel
    ⟨fileName, filesize, [], ⟨0, 0, []⟩⟩ hrest
  refine ⟨progress, ?_⟩
  have hdecode := layout.offT.decode_encode filesize (by omega) (by omega)
  have hstring : fileName.takeWhile (· ≠ 0) = fileName := by decide
  have hfilled : (layout.offT.encode uninit).drop 8 = [] :=
    List.drop_of_length_le (layout.offT.length_encode uninit).le
  simp only [recvFile, hname, hsizeRead, hoff, lt_irrefl, if_false, hfilled, List.append_nil,
    hdecode]
  rw [← hcontent]
  simpa only [ne_eq, hstring, List.nil_append] using hdone

end RoundTrip

/-- Three bytes, read as one and two, and a stream that arrives byte by byte. -/
theorem recvFile_transFile_bytewise : ∃ progress,
    recvFile Layout.littleEndian 1 3
      ((transFile Layout.littleEndian 3 [.bytes [7], .bytes [8, 9]]).map fun b => [b]) =
      .ok ⟨[102, 105, 108, 101, 49], 3, [7, 8, 9], progress⟩ :=
  recvFile_transFile Layout.littleEndian 1 3 (by decide) [7, 8, 9] [[7], [8, 9]] rfl (by decide) _
    (by decide) 3 (by decide)

end TrainFile

end ProcessThreadPool
