import ProcessThreadPool.TrainFile.Protocol

/-!
# The file transfer of the passing server

A child sends the name of the file as a train, then the size and the content. The client reads
the size and the content with `MSG_WAITALL`, and the length and the name with a plain `recv`
each, which stops where the stream happens to be cut. What it has not read then belongs to the
next record for it.
-/

namespace ProcessThreadPool

namespace PassingServer

open IntCodec SegmentedStream TrainFile

/-! ## The child -/

/-- The bytes of `"1b.txt"`. -/
def sentName : List UInt8 := [49, 98, 46, 116, 120, 116]

/-- What one call of `sendfile` transfers at most. -/
def sendfileMax : ℕ := 0x7ffff000

/-- `sendFile`, and the bytes it sends. -/
def sendFile (layout : Layout) (content : List UInt8) : List UInt8 :=
  sendTrain layout sentName.length sentName ++
    (layout.offT.encode content.length ++ content.take sendfileMax)

/-! ## The client -/

/-- A plain `recv`. Behind the end of the stream it gets nothing. -/
def recv (size : ℕ) (segments : List (List UInt8)) : List UInt8 × List (List UInt8) :=
  (pull size segments).getD ([], [])

/-- A `recv` with `MSG_WAITALL`. Only the end of the stream ends it early. -/
def recvWaitall (size : ℕ) (segments : List (List UInt8)) : List UInt8 × List (List UInt8) :=
  (pullAll size segments).getD (segments.flatten, [])

/-- An `int` as the `size_t` of a call. -/
def sizeT (n : ℤ) : ℕ := (n % 2 ^ 64).toNat

/-- The size of `file_name`. -/
def nameSize : ℕ := 60

/-- The string in `file_name`, which was zeroed, after these bytes came into it; `none` when the
bytes or the string leave the array, or when there is no name for `open`. -/
def openedName (bytes : List UInt8) : Option (List UInt8) :=
  let fileName := bytes ++ List.replicate (nameSize - bytes.length) 0
  if nameSize < bytes.length ∨ 0 ∉ fileName ∨ fileName.head? = some 0 then none
  else some (fileName.takeWhile (· ≠ 0))

/-- `ftruncate`. -/
def ftruncate (file : List UInt8) (size : ℕ) : List UInt8 :=
  file.take size ++ List.replicate (size - file.length) 0

/-- What the client has read, and the file it leaves. -/
structure Fetched where
  name : List UInt8
  size : ℤ
  received : List UInt8
  file : List UInt8
  deriving DecidableEq, Repr

/-- `main` from the size on; `stored` are the files that the client has. Nothing is mapped for
a negative size. -/
def fetchContent (layout : Layout) (stored : List UInt8 → List UInt8) (name : List UInt8)
    (segments : List (List UInt8)) : Option Fetched :=
  let size := recvWaitall 8 segments
  let fileSize := layout.offT.decode (size.1 ++ (layout.offT.encode 0).drop size.1.length)
  if fileSize < 0 then none
  else
    let received := (recvWaitall fileSize.toNat size.2).1
    let mapped := ftruncate (stored name) fileSize.toNat
    some ⟨name, fileSize, received, received ++ mapped.drop received.length⟩

/-- `main` of the client. `uninit` is what stands in `file_name_len` before the first `recv`. -/
def client (layout : Layout) (uninit : Vector UInt8 4) (stored : List UInt8 → List UInt8)
    (segments : List (List UInt8)) : Option Fetched :=
  let len := recv 4 segments
  let fileNameLen := layout.int.decode (len.1 ++ uninit.toList.drop len.1.length)
  let bytes := recv (sizeT fileNameLen) len.2
  (openedName bytes.1).bind fun name => fetchContent layout stored name bytes.2

/-- The client has read the name, the size and the content that were sent, and its file is the
file sent. -/
structure Transferred (content : List UInt8) (r : Fetched) : Prop where
  name : r.name = sentName
  size : r.size = content.length
  received : r.received = content
  file : r.file = content

/-- Neither the length of the name nor the name is cut, and the file goes through one
`sendfile`. -/
def ArrivesWhole (content : List UInt8) (segments : List (List UInt8)) : Prop :=
  content.length ≤ sendfileMax ∧ Uncut 0 4 segments ∧ Uncut 4 10 segments

/-! ## The name -/

section

variable {layout : Layout} {stored : List UInt8 → List UInt8} {segments : List (List UInt8)}
variable {content name bytes rest : List UInt8} {r : Fetched}

theorem openedName_sentName : openedName sentName = some sentName := by decide

/-- The name is a beginning of what came. -/
theorem openedName_isPrefix (h : openedName bytes = some name) : name <+: bytes := by
  obtain ⟨-, hname⟩ := Option.ite_none_left_eq_some.mp h
  obtain rfl := Option.some.inj hname
  rw [List.takeWhile_append]
  split
  · have hzeros : (List.replicate (nameSize - bytes.length) (0 : UInt8)).takeWhile
        (· ≠ 0) = [] := by
      cases nameSize - bytes.length <;> rfl
    exact ⟨[], by rw [hzeros, List.append_nil, List.append_nil]⟩
  · exact List.takeWhile_prefix _

theorem recv_isPrefix (size : ℕ) (segments : List (List UInt8)) :
    (recv size segments).1 <+: segments.flatten := by
  rw [recv]
  cases hpull : pull size segments with
  | none => exact List.nil_prefix
  | some r => exact ⟨r.2.flatten, (flatten_of_pull hpull).1.symm⟩

/-- The name is not a beginning of itself shifted by one, two or three. -/
theorem not_shifted {shift : List UInt8} (hpos : shift ≠ []) (hlt : shift.length < 4) :
    ¬ sentName <+: shift ++ (sentName ++ rest) := by
  intro hshifted
  obtain ⟨more, hmore⟩ := hshifted
  have hdrop : sentName.drop shift.length <+: sentName ++ rest := by
    refine ⟨more, ?_⟩
    have hle : shift.length ≤ sentName.length := Nat.le_of_lt (hlt.trans (by decide))
    rw [← List.drop_append_of_le_length hle, hmore, List.drop_left]
  have hself : sentName.drop shift.length <+: sentName :=
    List.prefix_of_prefix_length_le hdrop (List.prefix_append _ _)
      (by rw [List.length_drop]; exact Nat.sub_le _ _)
  have hlength := List.length_pos_of_ne_nil hpos
  have hnot : ∀ n, 0 < n → n < 4 → ¬ sentName.drop n <+: sentName := by
    intro n hn hn4
    obtain rfl | rfl | rfl : n = 1 ∨ n = 2 ∨ n = 3 := by omega
    all_goals decide
  exact hnot _ hlength hlt hself

/-! ## The size and the content -/

theorem recvWaitall_of_flatten (h : segments.flatten = bytes ++ rest) :
    ∃ segments', recvWaitall bytes.length segments = (bytes, segments') ∧
      segments'.flatten = rest := by
  obtain ⟨segments', hpull, hrest⟩ := pullAll_of_flatten h
  refine ⟨segments', ?_, hrest⟩
  rw [recvWaitall, hpull, Option.getD_some]

theorem length_recvWaitall_le (size : ℕ) (segments : List (List UInt8)) :
    (recvWaitall size segments).1.length ≤ segments.flatten.length := by
  rw [recvWaitall]
  cases hpull : pullAll size segments with
  | none => exact le_rfl
  | some r =>
      rw [Option.getD_some, (flatten_of_pullAll hpull).1, List.length_append]
      exact Nat.le_add_right _ _

theorem ftruncate_drop (file : List UInt8) (size : ℕ) : (ftruncate file size).drop size = [] := by
  rw [ftruncate, List.drop_eq_nil_iff, List.length_append, List.length_take,
    List.length_replicate]
  omega

/-- At the size record the client gets the whole file. -/
theorem fetchContent_of_flatten (hfits : content.length ≤ sendfileMax)
    (h : segments.flatten = layout.offT.encode content.length ++ content) :
    fetchContent layout stored name segments =
      some ⟨name, content.length, content, content⟩ := by
  obtain ⟨afterSize, hsize, hrest⟩ := recvWaitall_of_flatten h
  rw [← List.append_nil content] at hrest
  obtain ⟨afterContent, hcontent, -⟩ := recvWaitall_of_flatten hrest
  have hmax : content.length ≤ 2147479552 := hfits
  have hdecode := layout.offT.decode_encode content.length (by omega) (by omega)
  rw [layout.offT.length_encode] at hsize
  have hzero : (layout.offT.encode 0).drop 8 = [] := by
    rw [List.drop_eq_nil_iff, layout.offT.length_encode]
  simp only [fetchContent, hsize, layout.offT.length_encode, hzero, List.append_nil, hdecode,
    if_neg (Int.not_lt.mpr (Int.natCast_nonneg content.length)), Int.toNat_natCast, hcontent,
    ftruncate_drop]

/-- At the size record the client gets no more than one `sendfile` has transferred. -/
theorem fetchContent_of_large (hlarge : sendfileMax < content.length)
    (h : segments.flatten = layout.offT.encode content.length ++ content.take sendfileMax)
    (hr : fetchContent layout stored name segments = some r) : r.received ≠ content := by
  obtain ⟨afterSize, hsize, hrest⟩ := recvWaitall_of_flatten h
  rw [layout.offT.length_encode] at hsize
  rw [fetchContent, hsize] at hr
  obtain ⟨-, hsome⟩ := Option.ite_none_left_eq_some.mp hr
  obtain rfl := Option.some.inj hsome
  intro hreceived
  have hlength := length_recvWaitall_le (layout.offT.decode (layout.offT.encode content.length ++
    (layout.offT.encode 0).drop (layout.offT.encode content.length).length)).toNat afterSize
  rw [hrest, List.length_take] at hlength
  have hreceivedLength := congrArg List.length hreceived
  simp only at hreceivedLength
  omega

/-! ## The first two records -/

/-- A plain `recv` of something that is not cut. -/
theorem recv_of_uncut (hsegments : ∀ segment ∈ segments, segment ≠ [])
    (h : segments.flatten = bytes ++ rest) (hne : bytes ≠ [])
    (huncut : Uncut 0 bytes.length segments) :
    ∃ segments', recv bytes.length segments = (bytes, segments') ∧ segments'.flatten = rest ∧
      (∀ segment ∈ segments', segment ≠ []) ∧ ∀ low high,
        Uncut low high segments' ↔ Uncut (bytes.length + low) (bytes.length + high) segments := by
  obtain ⟨segments', hpull, hspec⟩ := pull_of_uncut hsegments h hne huncut
  exact ⟨segments', by rw [recv, hpull, Option.getD_some], hspec⟩

/-- A plain `recv` of something that is cut. -/
theorem recv_of_not_uncut (hsegments : ∀ segment ∈ segments, segment ≠ [])
    (h : segments.flatten = bytes ++ rest) (hne : bytes ≠ [])
    (hcut : ¬ Uncut 0 bytes.length segments) :
    ∃ c d segments', bytes = c ++ d ∧ c ≠ [] ∧ d ≠ [] ∧
      recv bytes.length segments = (c, segments') ∧ segments'.flatten = d ++ rest := by
  obtain ⟨c, d, segments', heq, hc, hd, hpull, hrest⟩ := pull_of_not_uncut hsegments h hne hcut
  exact ⟨c, d, segments', heq, hc, hd, by rw [recv, hpull, Option.getD_some], hrest⟩

theorem encode_six_ne_nil (layout : Layout) : layout.int.encode 6 ≠ [] := by
  intro hnil
  have hlength := layout.int.length_encode 6
  rw [hnil] at hlength
  cases hlength

/-- A length that has come whole is the length of the name, whatever stood there before. -/
theorem decode_six (layout : Layout) (uninit : Vector UInt8 4) :
    sizeT (layout.int.decode (layout.int.encode 6 ++
      uninit.toList.drop (layout.int.encode 6).length)) = sentName.length := by
  have hdrop : uninit.toList.drop (layout.int.encode 6).length = [] := by
    rw [List.drop_eq_nil_iff, layout.int.length_encode, Vector.length_toList]
  rw [hdrop, List.append_nil, layout.int.decode_encode 6 (by decide) (by decide)]
  rfl

variable (uninit : Vector UInt8 4)

/-- When the length and the name come whole the client is at the size with the right name. -/
theorem client_of_uncut (hsegments : ∀ segment ∈ segments, segment ≠ [])
    (h : segments.flatten = layout.int.encode 6 ++ (sentName ++ rest))
    (hlen : Uncut 0 4 segments) (hname : Uncut 4 10 segments) :
    ∃ segments', client layout uninit stored segments =
      fetchContent layout stored sentName segments' ∧ segments'.flatten = rest := by
  have hfour := layout.int.length_encode 6
  obtain ⟨afterLen, hrecvLen, hrest, hafter, hcuts⟩ :=
    recv_of_uncut hsegments h (encode_six_ne_nil layout) (by rwa [hfour])
  rw [hfour] at hrecvLen hcuts
  obtain ⟨afterName, hrecvName, hrest', -⟩ :=
    recv_of_uncut hafter hrest (by decide) ((hcuts 0 6).mpr hname)
  refine ⟨afterName, ?_, hrest'⟩
  simp only [client, hrecvLen, decode_six, hrecvName, openedName_sentName, Option.bind_some]

/-- When one of them is cut the client takes something else for the name. -/
theorem client_of_cut (hsegments : ∀ segment ∈ segments, segment ≠ [])
    (h : segments.flatten = layout.int.encode 6 ++ (sentName ++ rest))
    (hcut : ¬ (Uncut 0 4 segments ∧ Uncut 4 10 segments))
    (hr : client layout uninit stored segments = some r) : r.name ≠ sentName := by
  have hfour := layout.int.length_encode 6
  obtain ⟨name, hopened, hfetch⟩ := Option.bind_eq_some_iff.mp hr
  obtain ⟨-, hsome⟩ := Option.ite_none_left_eq_some.mp hfetch
  obtain rfl := Option.some.inj hsome
  intro hname
  have hbegins := openedName_isPrefix hopened
  rw [show name = sentName from hname] at hbegins
  by_cases hlen : Uncut 0 4 segments
  · -- the name is cut, and its beginning is not the name
    have hcutName : ¬ Uncut 4 10 segments := fun hname => hcut ⟨hlen, hname⟩
    obtain ⟨afterLen, hrecvLen, hrest, hafter, hcuts⟩ :=
      recv_of_uncut hsegments h (encode_six_ne_nil layout) (by rwa [hfour])
    rw [hfour] at hrecvLen hcuts
    obtain ⟨c, d, afterName, heq, -, hd, hrecvName, -⟩ :=
      recv_of_not_uncut hafter hrest (by decide) fun huncut => hcutName ((hcuts 0 6).mp huncut)
    rw [hrecvLen, decode_six, hrecvName] at hbegins
    have hlength : sentName.length ≤ c.length := hbegins.length_le
    rw [heq, List.length_append] at hlength
    have hpos := List.length_pos_of_ne_nil hd
    omega
  · -- the length is cut, and what is left of it comes before the name
    obtain ⟨c, d, afterLen, heq, hc, hd, hrecvLen, hrest⟩ :=
      recv_of_not_uncut hsegments h (encode_six_ne_nil layout) (by rwa [hfour])
    rw [hfour] at hrecvLen
    rw [hrecvLen] at hbegins
    have hprefix := hbegins.trans (recv_isPrefix _ _)
    rw [hrest] at hprefix
    rw [heq, List.length_append] at hfour
    have hpos := List.length_pos_of_ne_nil hc
    exact not_shifted hd (by omega) hprefix

/-- Whatever the file contains, however the stream is cut, and whatever the client has on its
stack and its disk: it gets the file exactly when the first two records come whole and one
`sendfile` takes all of the file. -/
theorem transferred_iff (layout : Layout) (uninit : Vector UInt8 4)
    (stored : List UInt8 → List UInt8) (content : List UInt8) (segments : List (List UInt8))
    (hsegments : ∀ segment ∈ segments, segment ≠ [])
    (hflatten : segments.flatten = sendFile layout content) :
    (∃ r, client layout uninit stored segments = some r ∧ Transferred content r) ↔
      ArrivesWhole content segments := by
  rw [sendFile, sendTrain_eq, List.append_assoc] at hflatten
  constructor
  · rintro ⟨r, hr, htransferred⟩
    by_cases huncut : Uncut 0 4 segments ∧ Uncut 4 10 segments
    · refine ⟨?_, huncut⟩
      by_contra hlarge
      obtain ⟨segments', hclient, hrest⟩ :=
        client_of_uncut uninit hsegments hflatten huncut.1 huncut.2
      exact fetchContent_of_large (Nat.not_le.mp hlarge) hrest (hclient ▸ hr)
        htransferred.received
    · exact absurd htransferred.name (client_of_cut uninit hsegments hflatten huncut hr)
  · rintro ⟨hfits, hlen, hname⟩
    obtain ⟨segments', hclient, hrest⟩ := client_of_uncut uninit hsegments hflatten hlen hname
    rw [List.take_of_length_le hfits] at hrest
    exact ⟨_, hclient.trans (fetchContent_of_flatten hfits hrest), rfl, rfl, rfl, rfl⟩

end

/-- The records arrive in segments of their own, the content in two. -/
theorem transferred_two : ∃ r,
    client Layout.littleEndian (Vector.replicate 4 0) (fun _ => [1, 1, 1])
      [Layout.littleEndian.int.encode 6, sentName, Layout.littleEndian.offT.encode 2, [7], [8]] =
        some r ∧ Transferred [7, 8] r :=
  (transferred_iff Layout.littleEndian (Vector.replicate 4 0) (fun _ => [1, 1, 1]) [7, 8] _
    (by decide) rfl).mpr ⟨by decide, by decide, by decide⟩

/-- The first segment has one byte of the length. -/
theorem name_shifted : ¬ ∀ (layout : Layout) (uninit : Vector UInt8 4)
    (stored : List UInt8 → List UInt8) (content : List UInt8) (segments : List (List UInt8)),
    (∀ segment ∈ segments, segment ≠ []) → segments.flatten = sendFile layout content →
      ∃ r, client layout uninit stored segments = some r ∧ Transferred content r := by
  intro hclaim
  obtain ⟨r, hr, -⟩ := hclaim Layout.littleEndian (Vector.replicate 4 0) (fun _ => []) [7]
    [[6], [0, 0, 0, 49, 98, 46, 116, 120, 116, 1, 0, 0, 0, 0, 0, 0, 0, 7]] (by decide) (by decide)
  have hnone : client Layout.littleEndian (Vector.replicate 4 0) (fun _ => [])
    [[6], [0, 0, 0, 49, 98, 46, 116, 120, 116, 1, 0, 0, 0, 0, 0, 0, 0, 7]] = none := by decide
  rw [hnone] at hr
  cases hr

end PassingServer

end ProcessThreadPool
