import ProcessThreadPool.Lib.DrivenLoop
import ProcessThreadPool.TrainFile.Protocol

/-!
# The client on a connection that ends

`recvFile` one `recv` at a time, on a stream that the peer closes or that breaks off with an
error somewhere. The loop of `recvn` adds what `recv` returns to its offset, also when that is
0 or -1. The file takes all that is written to it.
-/

namespace ProcessThreadPool

namespace TrainFile

open DrivenLoop SegmentedStream

/-- What `recv` returns when nothing more comes: 0 or -1. -/
inductive Ending where
  | closed
  | failed
  deriving DecidableEq, Repr

/-- What a `recvn` of `recvFile` is for. -/
inductive Goal where
  | nameLength
  | name
  | sizeLength
  | size
  | chunkLength
  | chunk
  deriving DecidableEq, Repr

/-- The size of the buffer: `train.length` or `train.data`. -/
def Goal.capacity : Goal → ℕ
  | .nameLength | .sizeLength | .chunkLength => 4
  | .name | .size | .chunk => carSize

/-- `recvFile` is in a `recvn` with the length and the offset of that, and with what is in the
buffer, it has left the bounds of an object or of a number, or it has returned. -/
inductive ClientPhase where
  | receiving (goal : Goal) (length total : ℤ) (got : List UInt8)
  | crashed
  | returned
  deriving DecidableEq, Repr

/-- The client, with the segments that are still to come and what `recv` returns after them. -/
structure Client where
  phase : ClientPhase
  segments : List (List UInt8)
  endings : ℕ → Ending
  received : Received

/-- `recvFile` at its start. -/
def Client.start (segments : List (List UInt8)) (endings : ℕ → Ending) : Client where
  phase := .receiving .nameLength 4 0 []
  segments := segments
  endings := endings
  received := ⟨[], 0, [], ⟨0, 0, []⟩⟩

/-- A call of `recvn`. -/
def Client.recvn (s : Client) (goal : Goal) (length : ℤ) : Client :=
  { s with phase := .receiving goal length 0 [] }

/-- `recv` in the loop of `recvn`, and its value added to the offset. -/
def recvStep (s : Client) (goal : Goal) (length total : ℤ) (got : List UInt8) : Client :=
  match pull (length - total).toNat s.segments with
  | some (bytes, rest) =>
      { s with
        segments := rest
        phase :=
          if (goal.capacity : ℤ) < total + bytes.length then .crashed
          else .receiving goal length (total + bytes.length) (got ++ bytes) }
  | none =>
      { s with
        endings := fun k => s.endings (k + 1)
        phase :=
          match s.endings 0 with
          | .closed => .receiving goal length total got
          | .failed =>
              if total ≤ -(2 ^ 31) then .crashed else .receiving goal length (total - 1) got }

/-- What `recvFile` does when a `recvn` has returned. `uninit` are the bytes of `filesize`
before `memcpy` has written to it. -/
def afterRecvn (layout : Layout) (uninit : List UInt8) (s : Client) (length : ℤ)
    (got : List UInt8) : Goal → Client
  | .nameLength => s.recvn .name (layout.int.decode got)
  | .name =>
      if length < 0 then { s with phase := .crashed }
      else Client.recvn { s with received := { s.received with
        opened := got.takeWhile (· ≠ 0) } } .sizeLength 4
  | .sizeLength => s.recvn .size (layout.int.decode got)
  | .size =>
      if length < 0 ∨ 8 < length then { s with phase := .crashed }
      else Client.recvn { s with received := { s.received with
        filesize := layout.offT.decode (got ++ uninit.drop got.length) } } .chunkLength 4
  | .chunkLength =>
      let counted := { s with received := { s.received with
        progress := s.received.progress.add s.received.filesize (layout.int.decode got) } }
      if layout.int.decode got = 0 then { counted with phase := .returned }
      else counted.recvn .chunk (layout.int.decode got)
  | .chunk =>
      Client.recvn { s with received := { s.received with
        written := s.received.written ++ got } } .chunkLength 4

/-- One step of `recvFile`. -/
def clientStep (layout : Layout) (uninit : List UInt8) (s : Client) : Client :=
  match s.phase with
  | .receiving goal length total got =>
      if total < length then recvStep s goal length total got
      else afterRecvn layout uninit s length got goal
  | _ => s

/-- The offset of `recvn` is between 0 and the length that was asked for. -/
def ClientPhase.InRange : ClientPhase → Prop
  | .receiving _ length total _ => 0 ≤ total ∧ total ≤ length
  | _ => True

/-! ## What a stream carries -/

/-- The first train of a stream, as much of it as is there, and what follows. -/
def firstTrain (layout : Layout) (stream : List UInt8) : Option (List UInt8 × List UInt8) :=
  if stream.length < 4 ∨ layout.int.decode (stream.take 4) < 0 then none
  else some ((stream.drop 4).splitAt (layout.int.decode (stream.take 4)).toNat)

/-- The contents of the first `fuel` trains up to an empty one. -/
def chunkContent (layout : Layout) : ℕ → List UInt8 → List UInt8
  | 0, _ => []
  | fuel + 1, stream =>
      match firstTrain layout stream with
      | none => []
      | some (data, rest) => if data = [] then [] else data ++ chunkContent layout fuel rest

/-- The file content in a stream: what is in the trains behind the first two. -/
def carriedContent (layout : Layout) (stream : List UInt8) : List UInt8 :=
  match firstTrain layout stream with
  | none => []
  | some (_, rest) =>
      match firstTrain layout rest with
      | none => []
      | some (_, rest) => chunkContent layout rest.length rest

/-- `recvFile` returns, its offsets stay in range, and what it has written is the beginning of
the content that the stream carries. -/
def EndsProperly (layout : Layout) (uninit : List UInt8) (segments : List (List UInt8))
    (endings : ℕ → Ending) : Prop :=
  Settles (clientStep layout uninit) (fun s => s.phase = .returned)
    (fun s => s.phase.InRange ∧
      s.received.written <+: carriedContent layout segments.flatten) (.start segments endings)

/-- The stream begins with a whole train that carries `data`. -/
def BeginsWith (layout : Layout) (data rest stream : List UInt8) : Prop :=
  ∃ header, header.length = 4 ∧ layout.int.decode header = data.length ∧
    stream = header ++ (data ++ rest)

/-- The stream begins with whole trains that carry the content, and an empty one. -/
inductive CarriesChunks (layout : Layout) : List UInt8 → List UInt8 → Prop
  | last {stream rest : List UInt8} :
      BeginsWith layout [] rest stream → CarriesChunks layout stream []
  | more {stream rest data content : List UInt8} :
      BeginsWith layout data rest stream → data ≠ [] → data.length ≤ carSize →
        CarriesChunks layout rest content → CarriesChunks layout stream (data ++ content)

/-- The stream begins with a whole transfer: trains with a name and a size that fit into their
buffers, and the trains of the content with an empty one behind them. -/
def WholeTransfer (layout : Layout) (stream : List UInt8) : Prop :=
  ∃ name size content rest rest', BeginsWith layout name rest stream ∧ name.length ≤ carSize ∧
    BeginsWith layout size rest' rest ∧ size.length ≤ 8 ∧ CarriesChunks layout rest' content

section

variable {layout : Layout} {uninit content : List UInt8} {segments : List (List UInt8)}
  {endings : ℕ → Ending} {received : Received} {goal : Goal}

/-- What the client has done so far is right. -/
def ClientOk (content : List UInt8) (s : Client) : Prop :=
  s.phase.InRange ∧ s.received.written <+: content

/-- `EndsProperly` from any state, for a given content. -/
def ClientSettles (layout : Layout) (uninit content : List UInt8) (s : Client) : Prop :=
  Settles (clientStep layout uninit) (fun s => s.phase = .returned) (ClientOk content) s

/-! ## One `recvn` -/

theorem clientSettles_receiving_iff {length total : ℤ} {got : List UInt8} :
    ClientSettles layout uninit content
      ⟨.receiving goal length total got, segments, endings, received⟩ ↔
      ClientOk content ⟨.receiving goal length total got, segments, endings, received⟩ ∧
        ClientSettles layout uninit content (clientStep layout uninit
          ⟨.receiving goal length total got, segments, endings, received⟩) :=
  settles_iff_step nofun

theorem not_clientSettles_crashed :
    ¬ ClientSettles layout uninit content ⟨.crashed, segments, endings, received⟩ :=
  not_settles_of_invariant
    (I := fun s : Client => s = ⟨.crashed, segments, endings, received⟩)
    (by rintro _ rfl; rfl) (by rintro _ rfl; exact nofun) rfl

/-- A `recvn` that gets nothing more does not return. -/
theorem not_clientSettles_ended {length total : ℤ} {got : List UInt8} (htotal : total < length) :
    ¬ ClientSettles layout uninit content
      ⟨.receiving goal length total got, [], endings, received⟩ := by
  refine not_settles_of_invariant (I := fun s : Client => s.segments = [] ∧
    (s.phase = .crashed ∨ ∃ total < length, ∃ got, s.phase = .receiving goal length total got))
    ?_ ?_ ⟨rfl, Or.inr ⟨total, htotal, got, rfl⟩⟩
  · rintro ⟨phase, _, endings, received⟩ ⟨rfl, rfl | ⟨total, htotal, got, rfl⟩⟩
    · exact ⟨rfl, Or.inl rfl⟩
    · rw [clientStep]
      simp only [if_pos htotal, recvStep, pull]
      cases endings 0 with
      | closed => exact ⟨trivial, Or.inr ⟨total, htotal, got, rfl⟩⟩
      | failed =>
        simp only
        split_ifs
        · exact ⟨trivial, Or.inl rfl⟩
        · exact ⟨trivial, Or.inr ⟨total - 1, by omega, got, rfl⟩⟩
  · rintro ⟨phase, _, endings, received⟩ ⟨-, rfl | ⟨total, htotal, got, rfl⟩⟩ hreturned
    · cases hreturned
    · cases hreturned

theorem ClientSettles.written {s : Client} (h : ClientSettles layout uninit content s) :
    s.received.written <+: content :=
  (h.safe 0).2

/-- From an offset on, `recvn` gets what is missing, if that is there and fits into the
buffer. -/
theorem clientSettles_recvn_iff {length : ℕ} {got : List UInt8} (hgot : got.length ≤ length)
    (hfits : got.length ≤ goal.capacity) :
    ClientSettles layout uninit content
      ⟨.receiving goal length got.length got, segments, endings, received⟩ ↔
      length ≤ goal.capacity ∧ ∃ data rest,
        pullAll (length - got.length) segments = some (data, rest) ∧
          ClientSettles layout uninit content
            ⟨.receiving goal length length (got ++ data), rest, endings, received⟩ := by
  induction segments generalizing got with
  | nil =>
    rcases hgot.eq_or_lt with hfull | hlt
    · rw [← hfull, Nat.sub_self]
      simp [pullAll, hfits]
    · obtain ⟨missing, hmissing⟩ := Nat.exists_eq_succ_of_ne_zero (Nat.sub_pos_of_lt hlt).ne'
      refine iff_of_false (not_clientSettles_ended (by exact_mod_cast hlt)) ?_
      rw [hmissing]
      rintro ⟨-, data, rest, hpull, -⟩
      cases hpull
  | cons segment segments ih =>
    rcases hgot.eq_or_lt with hfull | hlt
    · rw [← hfull, Nat.sub_self]
      simp [pullAll, hfits]
    obtain ⟨missing, hmissing⟩ := Nat.exists_eq_succ_of_ne_zero (Nat.sub_pos_of_lt hlt).ne'
    have hasked : ((length : ℤ) - got.length).toNat = missing + 1 := by omega
    have hstep : clientStep layout uninit
        ⟨.receiving goal length got.length got, segment :: segments, endings, received⟩ =
        ⟨if (goal.capacity : ℤ) < got.length + (segment.take (missing + 1)).length then .crashed
          else .receiving goal length (got.length + (segment.take (missing + 1)).length)
            (got ++ segment.take (missing + 1)),
          if missing + 1 < segment.length then segment.drop (missing + 1) :: segments
          else segments, endings, received⟩ := by
      have hlt' : (got.length : ℤ) < length := by exact_mod_cast hlt
      simp only [clientStep, if_pos hlt', recvStep, hasked, pull]
    have hok : ClientSettles layout uninit content (clientStep layout uninit
        ⟨.receiving goal length got.length got, segment :: segments, endings, received⟩) →
        ClientOk content
          ⟨.receiving goal length got.length got, segment :: segments, endings, received⟩ := by
      intro h
      rw [hstep] at h
      exact ⟨⟨by omega, by exact_mod_cast hgot⟩, h.written⟩
    rw [clientSettles_receiving_iff, and_iff_right_of_imp hok, hstep, hmissing]
    -- What one `recv` gets is all that is missing, or the rest of the segment.
    by_cases hlong : missing + 1 < segment.length
    · have htake : (segment.take (missing + 1)).length = missing + 1 :=
        List.length_take_of_le hlong.le
      have hall : (got.length : ℤ) + (missing + 1 : ℕ) = length := by omega
      rw [if_pos hlong, htake, hall, pullAll, if_pos hlong]
      split_ifs with hover
      · exact iff_of_false not_clientSettles_crashed fun h => by omega
      · constructor
        · exact fun h => ⟨by omega, _, _, rfl, h⟩
        · rintro ⟨-, data, rest, hpull, h⟩
          cases hpull
          exact h
    · have htake : segment.take (missing + 1) = segment :=
        List.take_of_length_le (Nat.not_lt.mp hlong)
      have hsum : (got.length : ℤ) + segment.length = (got ++ segment).length := by
        rw [List.length_append]
        norm_cast
      have hrest : length - (got ++ segment).length = missing + 1 - segment.length := by
        rw [List.length_append]
        omega
      rw [if_neg hlong, htake, hsum, pullAll, if_neg hlong]
      split_ifs with hover
      · refine iff_of_false not_clientSettles_crashed fun h => ?_
        rw [List.length_append] at hover
        omega
      · rw [ih (by rw [List.length_append]; omega) (by omega), hrest]
        refine and_congr_right fun _ => ?_
        constructor
        · rintro ⟨data, rest, hpull, h⟩
          rw [List.append_assoc] at h
          exact ⟨segment ++ data, rest, by rw [hpull, Option.map_some], h⟩
        · rintro ⟨all, rest', hmap, h⟩
          obtain ⟨⟨data, rest⟩, hpull, hr⟩ := Option.map_eq_some_iff.mp hmap
          cases hr
          rw [← List.append_assoc] at h
          exact ⟨data, rest, hpull, h⟩

/-- A `recvn` that settles has got all that it asked for. -/
theorem ClientSettles.recvn_elim {length : ℤ} (h : ClientSettles layout uninit content
    ⟨.receiving goal length 0 [], segments, endings, received⟩) :
    ∃ data rest, length = (data.length : ℤ) ∧ data.length ≤ goal.capacity ∧
      segments.flatten = data ++ rest.flatten ∧
        ClientSettles layout uninit content (afterRecvn layout uninit
          ⟨.receiving goal length length data, rest, endings, received⟩ length data goal) := by
  have hpos : 0 ≤ length := (h.safe 0).1.2
  obtain ⟨n, rfl⟩ := Int.eq_ofNat_of_zero_le hpos
  have hnone : ([] : List UInt8).length ≤ n := Nat.zero_le n
  obtain ⟨hfits, data, rest, hpull, hrest⟩ :=
    (clientSettles_recvn_iff hnone (Nat.zero_le _)).mp h
  obtain ⟨hflatten, rfl⟩ := flatten_of_pullAll hpull
  rw [List.nil_append, clientSettles_receiving_iff, clientStep] at hrest
  simp only [lt_irrefl, if_false] at hrest
  exact ⟨data, rest, rfl, hfits, hflatten, hrest.2⟩

/-- A `recvn` whose bytes are there, and fit, settles as what follows it does. -/
theorem ClientSettles.recvn_intro {data rest : List UInt8} (hfits : data.length ≤ goal.capacity)
    (hflatten : segments.flatten = data ++ rest) (hwritten : received.written <+: content)
    (hnext : ∀ segments', segments'.flatten = rest →
      ClientSettles layout uninit content (afterRecvn layout uninit
        ⟨.receiving goal data.length data.length data, segments', endings, received⟩
          data.length data goal)) :
    ClientSettles layout uninit content
      ⟨.receiving goal data.length 0 [], segments, endings, received⟩ := by
  obtain ⟨segments', hpull, hrest⟩ := pullAll_of_flatten hflatten
  have hnone : ([] : List UInt8).length ≤ data.length := Nat.zero_le _
  refine (clientSettles_recvn_iff hnone (Nat.zero_le _)).mpr ⟨hfits, data, segments', hpull, ?_⟩
  rw [List.nil_append, clientSettles_receiving_iff, clientStep]
  simp only [lt_irrefl, if_false]
  exact ⟨⟨⟨Int.natCast_nonneg _, le_rfl⟩, hwritten⟩, hnext segments' hrest⟩

/-! ## One train -/

/-- The first two trains. -/
theorem ClientSettles.train_elim {header car : Goal}
    (hafter : ∀ s got, afterRecvn layout uninit s 4 got header =
      s.recvn car (layout.int.decode got))
    (h : ClientSettles layout uninit content
      ⟨.receiving header 4 0 [], segments, endings, received⟩) :
    ∃ data rest, BeginsWith layout data rest.flatten segments.flatten ∧
      data.length ≤ car.capacity ∧
        ClientSettles layout uninit content (afterRecvn layout uninit
          ⟨.receiving car data.length data.length data, rest, endings, received⟩
            data.length data car) := by
  obtain ⟨bytes, rest, hfour, -, hflatten, hnext⟩ := h.recvn_elim
  rw [hafter] at hnext
  obtain ⟨data, rest', hlength, hfits, hflatten', hnext⟩ := hnext.recvn_elim
  rw [hlength] at hnext
  exact ⟨data, rest', ⟨bytes, by exact_mod_cast hfour.symm, hlength, by
    rw [hflatten, hflatten']⟩, hfits, hnext⟩

theorem ClientSettles.train_intro {header car : Goal} {data rest : List UInt8}
    (hheader : header.capacity = 4)
    (hafter : ∀ s got, afterRecvn layout uninit s 4 got header =
      s.recvn car (layout.int.decode got))
    (hbegins : BeginsWith layout data rest segments.flatten) (hfits : data.length ≤ car.capacity)
    (hwritten : received.written <+: content)
    (hnext : ∀ segments', segments'.flatten = rest →
      ClientSettles layout uninit content (afterRecvn layout uninit
        ⟨.receiving car data.length data.length data, segments', endings, received⟩
          data.length data car)) :
    ClientSettles layout uninit content
      ⟨.receiving header 4 0 [], segments, endings, received⟩ := by
  obtain ⟨bytes, hfour, hdecode, hflatten⟩ := hbegins
  have hlength : (bytes.length : ℤ) = 4 := by exact_mod_cast hfour
  rw [← hlength]
  refine .recvn_intro (by omega) hflatten hwritten fun segments' hrest => ?_
  rw [hlength, hafter, hdecode]
  exact .recvn_intro hfits hrest hwritten hnext

/-! ## The trains of the content -/

/-- A client that settles has found an empty train behind whole ones. -/
theorem ClientSettles.chunks_elim (h : ClientSettles layout uninit content
    ⟨.receiving .chunkLength 4 0 [], segments, endings, received⟩) :
    ∃ carried, CarriesChunks layout segments.flatten carried := by
  -- Every train takes at least its header from the stream.
  induction hn : segments.flatten.length using Nat.strong_induction_on
    generalizing segments received with
  | _ n ih =>
    obtain ⟨bytes, rest, hfour, -, hflatten, hnext⟩ := h.recvn_elim
    have hheader : bytes.length = 4 := by exact_mod_cast hfour.symm
    rw [afterRecvn] at hnext
    simp only at hnext
    split_ifs at hnext with hzero
    · exact ⟨[], .last ⟨bytes, hheader, hzero, hflatten⟩⟩
    · obtain ⟨data, rest', hlength, hfits, hflatten', hnext⟩ := hnext.recvn_elim
      have hdata : data ≠ [] := by
        rintro rfl
        exact hzero hlength
      have hless : rest'.flatten.length < n := by
        rw [← hn, hflatten, hflatten', List.length_append, List.length_append]
        omega
      obtain ⟨carried, hcarried⟩ := ih _ hless hnext rfl
      refine ⟨data ++ carried, .more ⟨bytes, hheader, hlength, ?_⟩ hdata hfits hcarried⟩
      rw [hflatten, hflatten']

/-- On whole trains with an empty one behind them the client settles. -/
theorem clientSettles_of_carriesChunks {stream carried : List UInt8}
    (h : CarriesChunks layout stream carried) (hstream : segments.flatten = stream)
    (hwritten : received.written ++ carried <+: content) : ClientSettles layout uninit content
      ⟨.receiving .chunkLength 4 0 [], segments, endings, received⟩ := by
  induction h generalizing segments received with
  | @last stream rest hbegins =>
    obtain ⟨bytes, hfour, hdecode, hbytes⟩ := hbegins
    have hlength : (bytes.length : ℤ) = 4 := by exact_mod_cast hfour
    rw [List.append_nil] at hwritten
    rw [← hlength]
    refine .recvn_intro hfour.le (hstream.trans hbytes) hwritten fun segments' _ => ?_
    rw [afterRecvn]
    simp only [hdecode, List.length_nil, Nat.cast_zero, if_true]
    refine settles_of_invariant (I := fun s : Client => s.phase = .returned ∧
      s.received.written <+: content) ?_ ?_ ⟨rfl, hwritten⟩
    · rintro ⟨_, segments, endings, received⟩ ⟨rfl, hwritten⟩
      exact ⟨rfl, hwritten⟩
    · rintro ⟨_, segments, endings, received⟩ ⟨rfl, hwritten⟩
      exact ⟨rfl, trivial, hwritten⟩
  | @more stream rest data carried hbegins hdata hfits _ ih =>
    obtain ⟨bytes, hfour, hdecode, hbytes⟩ := hbegins
    have hlength : (bytes.length : ℤ) = 4 := by exact_mod_cast hfour
    have hbefore : received.written <+: content := (List.prefix_append _ _).trans hwritten
    have hne : (data.length : ℤ) ≠ 0 := by
      exact_mod_cast (List.length_pos_of_ne_nil hdata).ne'
    rw [← hlength]
    refine .recvn_intro hfour.le (hstream.trans hbytes) hbefore fun segments' hrest => ?_
    rw [afterRecvn]
    simp only [hdecode, if_neg hne]
    refine .recvn_intro hfits hrest hbefore fun segments'' hrest' => ?_
    rw [← List.append_assoc] at hwritten
    exact ih hrest' hwritten

/-! ## The content -/

theorem firstTrain_of_beginsWith {data rest stream : List UInt8}
    (h : BeginsWith layout data rest stream) : firstTrain layout stream = some (data, rest) := by
  obtain ⟨bytes, hfour, hdecode, rfl⟩ := h
  have htake : (bytes ++ (data ++ rest)).take 4 = bytes := List.take_left' hfour
  have hdrop : (bytes ++ (data ++ rest)).drop 4 = data ++ rest := List.drop_left' hfour
  have hnot : ¬ ((bytes ++ (data ++ rest)).length < 4 ∨ (data.length : ℤ) < 0) := by
    rw [List.length_append]
    omega
  rw [firstTrain, htake, hdrop, hdecode, if_neg hnot, Int.toNat_natCast, List.splitAt_eq,
    List.take_left, List.drop_left]

theorem chunkContent_eq {stream carried : List UInt8} (h : CarriesChunks layout stream carried)
    {fuel : ℕ} (hfuel : stream.length ≤ fuel) : chunkContent layout fuel stream = carried := by
  induction h generalizing fuel with
  | @last stream rest hbegins =>
    cases fuel with
    | zero => rfl
    | succ fuel =>
      rw [chunkContent, firstTrain_of_beginsWith hbegins]
      exact if_pos rfl
  | @more stream rest data carried hbegins hdata _ _ ih =>
    obtain ⟨bytes, hfour, -, hbytes⟩ := id hbegins
    rw [hbytes, List.length_append, List.length_append] at hfuel
    obtain ⟨fuel, rfl⟩ : ∃ more, fuel = more + 1 := ⟨fuel - 1, by omega⟩
    rw [chunkContent, firstTrain_of_beginsWith hbegins]
    simp only [if_neg hdata]
    rw [ih (by omega)]

end

/-- The client ends properly exactly on the streams that begin with a whole transfer, however
they arrive and however they end. -/
theorem endsProperly_iff (layout : Layout) (uninit : List UInt8) (segments : List (List UInt8))
    (endings : ℕ → Ending) :
    EndsProperly layout uninit segments endings ↔ WholeTransfer layout segments.flatten := by
  constructor
  · intro h
    have hstart : ClientSettles layout uninit (carriedContent layout segments.flatten)
        (.start segments endings) := h
    obtain ⟨name, rest, hname, hfits, hnext⟩ := hstart.train_elim fun _ _ => rfl
    rw [afterRecvn, if_neg (by omega)] at hnext
    obtain ⟨size, rest', hsize, -, hnext⟩ := hnext.train_elim fun _ _ => rfl
    rw [afterRecvn] at hnext
    split_ifs at hnext with hbad
    · exact absurd hnext not_clientSettles_crashed
    · obtain ⟨carried, hcarried⟩ := hnext.chunks_elim
      exact ⟨name, size, carried, _, _, hname, hfits, hsize, by omega, hcarried⟩
  · rintro ⟨name, size, carried, rest, rest', hname, hnameFits, hsize, hsizeFits, hcarried⟩
    have hcontent : carriedContent layout segments.flatten = carried := by
      rw [carriedContent, firstTrain_of_beginsWith hname]
      simp only [firstTrain_of_beginsWith hsize]
      exact chunkContent_eq hcarried le_rfl
    have hgoal : ClientSettles layout uninit carried (.start segments endings) := by
      refine .train_intro rfl (fun _ _ => rfl) hname hnameFits (List.nil_prefix)
        fun segments' hrest => ?_
      rw [afterRecvn, if_neg (by omega)]
      rw [← hrest] at hsize
      refine .train_intro rfl (fun _ _ => rfl) hsize (hsizeFits.trans (by decide))
        (List.nil_prefix) fun segments'' hrest' => ?_
      rw [afterRecvn, if_neg (by omega)]
      exact clientSettles_of_carriesChunks hcarried hrest' (List.prefix_refl _)
    rw [EndsProperly, hcontent]
    exact hgoal

/-- The peer closes the connection before it has sent anything. -/
theorem not_endsProperly_closed : ¬ ∀ layout uninit segments endings,
    EndsProperly layout uninit segments endings := by
  intro h
  obtain ⟨k, hk⟩ := (h .littleEndian [] [] fun _ => .closed).ends
  have hwaits : ∀ s : Client, s = .start [] (fun _ => .closed) →
      clientStep .littleEndian [] s = .start [] (fun _ => .closed) := by
    rintro _ rfl
    rfl
  have hphase := iterate_of_invariant hwaits rfl k
  rw [hphase] at hk
  cases hk

end TrainFile

end ProcessThreadPool
