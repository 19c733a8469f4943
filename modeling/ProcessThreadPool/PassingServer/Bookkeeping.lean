import ProcessThreadPool.PassingServer.Server

/-!
# What a free flag says

A child whose flag is free is idle as long as no child dies at the wrong time. The master
takes every event on the socket of a child for the message that it has finished, also the
end of the stream: it marks a dead child as free, and the next connection goes to it.
-/

namespace ProcessThreadPool

namespace PassingServer

variable {n : ℕ}

/-- The child is alive, serves no connection, and no connection is on its way to it. -/
structure State.Idle (s : State n) (i : Fin n) : Prop where
  alive : s.child i ≠ .dead
  unoccupied : ∀ c, s.child i ≠ .serving c
  unsent : ∀ c, .connection c ∉ s.toChild i

/-- A child whose flag is free is idle. -/
def State.FreeIdle (s : State n) : Prop := ∀ i, s.flag i = .free → s.Idle i

/-- A connection that the master hands over goes to an idle child. -/
def State.HandsToIdle (s : State n) : Prop :=
  ∀ c events, s.master = .accepted (some c) events → ∀ i, s.findFree = some i → s.Idle i

/-- The child dies next, or exits. -/
def State.Ends (s : State n) (i : Fin n) : Event n → Prop
  | .die j => i = j
  | .child j => i = j ∧ s.child i = .receiving ∧ (s.toChild i).head? = some .exit
  | _ => False

/-- A child dies only while its flag is busy, and the master does not come to handle the
socket of a dead child. -/
def DiesBusy (s : State n) (l : Event n) : Prop :=
  (∀ i, s.Ends i l → s.flag i = .busy) ∧
    ∀ ok, l = .master ok → ∀ i events, s.master = .handling (.child i :: events) →
      s.child i ≠ .dead

/-- The connections that are on their way to a child. -/
def State.unread (s : State n) (i : Fin n) : ℕ := (s.toChild i).countP (· ≠ .exit)

/-- A child that has received a connection and not yet told the master. -/
def Child.occupied : Child → ℕ
  | .serving _ | .reporting => 1
  | .receiving | .dead => 0

/-- What the flag of a living child stands for, in bytes: the message for each connection
that was handed over, until the master has received it. -/
def State.load (s : State n) (i : Fin n) : ℕ :=
  3 * (s.unread i + (s.child i).occupied) + s.toMaster i

/-- The invariant: a dead child is marked busy, a living one has at most one connection,
and none when it is marked free. -/
structure State.Kept (s : State n) : Prop where
  dead : ∀ i, s.child i = .dead → s.flag i = .busy
  free : ∀ i, s.child i ≠ .dead → s.flag i = .free → s.load i = 0
  busy : ∀ i, s.child i ≠ .dead → s.load i ≤ 3

section Steps

variable {s t : State n} {i : Fin n}

theorem Flag.eq_free_of_ne {f : Flag} (h : f ≠ .busy) : f = .free := by
  cases f with
  | busy => exact absurd rfl h
  | free => rfl

theorem State.Kept.freeIdle (h : s.Kept) : s.FreeIdle := by
  intro i hi
  have halive : s.child i ≠ .dead := fun hdead => by
    rw [h.dead i hdead] at hi
    cases hi
  have hload := h.free i halive hi
  rw [State.load] at hload
  refine ⟨halive, fun c hc => ?_, fun c hc => ?_⟩
  · rw [hc, Child.occupied] at hload
    omega
  · have hpos : 0 < s.unread i := List.countP_pos_iff.mpr ⟨_, hc, rfl⟩
    omega

theorem findFree_eq_some (h : s.findFree = some i) : s.flag i = .free :=
  of_decide_eq_true (List.find?_some (p := fun i => decide (s.flag i = .free)) h)

theorem State.FreeIdle.handsToIdle (h : s.FreeIdle) : s.HandsToIdle :=
  fun _ _ _ i hi => h i (findFree_eq_some hi)

/-- Only the flags, the children and the sockets matter. -/
theorem State.Kept.congr (h : s.Kept) (hflag : t.flag = s.flag) (hchild : t.child = s.child)
    (htoChild : t.toChild = s.toChild) (htoMaster : t.toMaster = s.toMaster) : t.Kept := by
  have hload : ∀ i, t.load i = s.load i := fun i => by
    simp only [State.load, State.unread, hchild, htoChild, htoMaster]
  constructor <;> simp only [hload, hflag, hchild]
  · exact h.dead
  · exact h.free
  · exact h.busy

/-- One child changes. -/
theorem State.Kept.update (h : s.Kept) (i : Fin n)
    (hflag : ∀ j, j ≠ i → t.flag j = s.flag j) (hchild : ∀ j, j ≠ i → t.child j = s.child j)
    (htoChild : ∀ j, j ≠ i → t.toChild j = s.toChild j)
    (htoMaster : ∀ j, j ≠ i → t.toMaster j = s.toMaster j)
    (hdead : t.child i = .dead → t.flag i = .busy)
    (hfree : t.child i ≠ .dead → t.flag i = .free → t.load i = 0)
    (hbusy : t.child i ≠ .dead → t.load i ≤ 3) : t.Kept := by
  have hload : ∀ j, j ≠ i → t.load j = s.load j := fun j hj => by
    simp only [State.load, State.unread, hchild j hj, htoChild j hj, htoMaster j hj]
  constructor <;> intro j
  · by_cases hj : j = i
    · exact hj ▸ hdead
    · rw [hchild j hj, hflag j hj]
      exact h.dead j
  · by_cases hj : j = i
    · exact hj ▸ hfree
    · rw [hchild j hj, hflag j hj, hload j hj]
      exact h.free j
  · by_cases hj : j = i
    · exact hj ▸ hbusy
    · rw [hchild j hj, hload j hj]
      exact h.busy j

theorem State.Kept.toSonNetFd (h : s.Kept) (netFd : Option ℕ) (events : List (Source n)) :
    (s.toSonNetFd netFd events).Kept := by
  rw [State.toSonNetFd]
  cases hfind : s.findFree with
  | none => exact h.congr rfl rfl rfl rfl
  | some i =>
      have hflag := findFree_eq_some hfind
      have halive := (h.freeIdle i hflag).alive
      have hload := h.free i halive hflag
      cases netFd with
      | none =>
          refine h.update i (fun j hj => Function.update_of_ne hj _ _) (fun _ _ => rfl)
            (fun _ _ => rfl) (fun _ _ => rfl) (fun hdead => absurd hdead halive) ?_ ?_
          · intro _ hfree
            have hset : Function.update s.flag i .busy i = .free := hfree
            rw [Function.update_self] at hset
            cases hset
          · intro _
            exact Nat.le_trans (Nat.le_of_eq hload) (Nat.zero_le 3)
      | some c =>
          dsimp only
          rw [if_neg halive]
          refine h.update i (fun j hj => Function.update_of_ne hj _ _) (fun _ _ => rfl)
            (fun j hj => Function.update_of_ne hj _ _) (fun _ _ => rfl)
            (fun hdead => absurd hdead halive) ?_ ?_
          · intro _ hfree
            have hset : Function.update s.flag i .busy i = .free := hfree
            rw [Function.update_self] at hset
            cases hset
          · intro _
            simp only [State.load, State.unread, Function.update_self,
              List.countP_append] at hload ⊢
            rw [show [Message.connection c].countP (fun m => m ≠ .exit) = 1 from rfl]
            omega

/-- The master handles the socket of a living child: it has reported its connection. -/
theorem State.Kept.recv (h : s.Kept) (halive : s.child i ≠ .dead)
    (hreadable : s.Readable (.child i)) (events : List (Source n)) :
    (s.recv i events).Kept := by
  have hbytes : 0 < s.toMaster i := hreadable.resolve_right halive
  have hload : (s.recv i events).load i = 0 := by
    have hold := h.busy i halive
    simp only [State.load, State.unread, State.recv, Function.update_self, bufSize] at hold ⊢
    omega
  exact h.update i (fun j hj => Function.update_of_ne hj _ _) (fun _ _ => rfl)
    (fun _ _ => rfl) (fun j hj => Function.update_of_ne hj _ _)
    (fun hdead => absurd hdead halive) (fun _ _ => hload)
    (fun _ => Nat.le_trans (Nat.le_of_eq hload) (Nat.zero_le 3))

theorem State.Kept.sendExit (h : s.Kept) (i : Fin n) (left : List (Fin n)) :
    (s.sendExit i left).Kept := by
  rw [State.sendExit]
  split_ifs with hdead
  · exact h.congr rfl rfl rfl rfl
  · have hload : State.load { s with
        toChild := Function.update s.toChild i (s.toChild i ++ [.exit])
        master := .exiting left } i = s.load i := by
      simp only [State.load, State.unread, Function.update_self, List.countP_append]
      rfl
    refine h.update i (fun _ _ => rfl) (fun _ _ => rfl)
      (fun j hj => Function.update_of_ne hj _ _) (fun _ _ => rfl)
      (fun hdead' => absurd hdead' hdead) ?_ ?_
    · rw [hload]
      exact h.free i
    · rw [hload]
      exact h.busy i

/-- A child that dies is marked busy. -/
theorem State.Kept.kill (h : s.Kept) (hbusy : s.flag i = .busy) : (s.kill i).Kept := by
  have hdead : (s.kill i).child i = .dead := Function.update_self i _ s.child
  exact h.update i (fun _ _ => rfl) (fun j hj => Function.update_of_ne hj _ _)
    (fun j hj => Function.update_of_ne hj _ _) (fun _ _ => rfl) (fun _ => hbusy)
    (fun halive => absurd hdead halive) (fun halive => absurd hdead halive)

/-- A child goes on, without exiting. -/
theorem State.Kept.childStep (h : s.Kept) (hstep : s.childStep i = some t)
    (hbusy : s.child i = .receiving → (s.toChild i).head? = some .exit → s.flag i = .busy) :
    t.Kept := by
  have hstays : ∀ {c : Child}, t.child = Function.update s.child i c → c ≠ .dead →
      t.flag = s.flag → (∀ j, j ≠ i → t.toChild j = s.toChild j) →
      (∀ j, j ≠ i → t.toMaster j = s.toMaster j) → s.child i ≠ .dead →
      t.load i = s.load i → t.Kept := by
    intro c hchild hc hflag htoChild htoMaster halive hload
    refine h.update i (fun j _ => congrFun hflag j) (fun j hj => ?_) htoChild htoMaster ?_ ?_ ?_
    · rw [hchild, Function.update_of_ne hj]
    · rw [hchild, Function.update_self]
      exact fun hdead => absurd hdead hc
    · rw [hload, hflag]
      exact fun _ => h.free i halive
    · rw [hload]
      exact fun _ => h.busy i halive
  rw [State.childStep] at hstep
  cases hchild : s.child i with
  | receiving =>
      rw [hchild] at hstep
      dsimp only at hstep
      have halive : s.child i ≠ .dead := fun hdead => by
        rw [hchild] at hdead
        cases hdead
      split at hstep
      · rename_i c rest hto
        obtain rfl := Option.some.inj hstep
        refine hstays rfl (fun hc => by cases hc) rfl
          (fun j hj => Function.update_of_ne hj _ _) (fun _ _ => rfl) halive ?_
        simp only [State.load, State.unread, Function.update_self, hto, hchild, Child.occupied]
        rw [List.countP_cons_of_pos rfl]
      · rename_i rest hto
        obtain rfl := Option.some.inj hstep
        exact h.kill (hbusy hchild (by rw [hto]; rfl))
      · cases hstep
  | serving c =>
      rw [hchild] at hstep
      obtain rfl := Option.some.inj hstep
      refine hstays rfl (fun hc => by cases hc) rfl (fun _ _ => rfl) (fun _ _ => rfl)
        (fun hdead => by rw [hchild] at hdead; cases hdead) ?_
      simp only [State.load, State.unread, Function.update_self, hchild, Child.occupied]
  | reporting =>
      rw [hchild] at hstep
      obtain rfl := Option.some.inj hstep
      refine hstays rfl (fun hc => by cases hc) rfl (fun _ _ => rfl)
        (fun j hj => Function.update_of_ne hj _ _)
        (fun hdead => by rw [hchild] at hdead; cases hdead) ?_
      simp only [State.load, State.unread, Function.update_self, hchild, Child.occupied]
      omega
  | dead =>
      rw [hchild] at hstep
      cases hstep

/-- The master goes on, and does not handle the socket of a dead child. -/
theorem State.Kept.masterStep (h : s.Kept) {ok : Bool} (hstep : s.masterStep ok = some t)
    (halive : ∀ i events, s.master = .handling (.child i :: events) → s.child i ≠ .dead) :
    t.Kept := by
  rw [State.masterStep] at hstep
  split at hstep
  · cases hstep
  · obtain rfl := Option.some.inj hstep
    exact h.congr rfl rfl rfl rfl
  · split_ifs at hstep
    · split at hstep
      · obtain rfl := Option.some.inj hstep
        exact h.congr rfl rfl rfl rfl
      · cases hstep
    · obtain rfl := Option.some.inj hstep
      exact h.congr rfl rfl rfl rfl
  · split_ifs at hstep
    obtain rfl := Option.some.inj hstep
    exact h.congr rfl rfl rfl rfl
  · rename_i i events hmaster
    split_ifs at hstep with hreadable
    obtain rfl := Option.some.inj hstep
    exact h.recv (halive i events hmaster) hreadable events
  · obtain rfl := Option.some.inj hstep
    exact h.toSonNetFd _ _
  · obtain rfl := Option.some.inj hstep
    exact h.congr rfl rfl rfl rfl
  · obtain rfl := Option.some.inj hstep
    exact h.congr rfl rfl rfl rfl
  · obtain rfl := Option.some.inj hstep
    exact h.sendExit _ _
  · obtain rfl := Option.some.inj hstep
    exact h.congr rfl rfl rfl rfl
  · split_ifs at hstep
    obtain rfl := Option.some.inj hstep
    exact h.congr rfl rfl rfl rfl
  · cases hstep

/-- Every step keeps the invariant, as long as children die only when they are marked
busy and are not found dead. -/
theorem State.Kept.step (h : s.Kept) {l : Event n} (hdies : DiesBusy s l)
    (hstep : s.step l = some t) : t.Kept := by
  simp only [State.step, Option.ite_none_left_eq_some] at hstep
  obtain ⟨-, hstep⟩ := hstep
  cases l with
  | arrive =>
      obtain rfl := Option.some.inj hstep
      exact h.congr rfl rfl rfl rfl
  | signal =>
      obtain rfl := Option.some.inj hstep
      exact h.congr rfl rfl rfl rfl
  | epollWait events =>
      obtain ⟨-, heq⟩ := Option.ite_none_right_eq_some.mp hstep
      obtain rfl := Option.some.inj heq
      exact h.congr rfl rfl rfl rfl
  | master ok => exact h.masterStep hstep (hdies.2 ok rfl)
  | child i =>
      exact h.childStep hstep fun hreceiving hexit => hdies.1 i ⟨rfl, hreceiving, hexit⟩
  | die i =>
      obtain ⟨-, heq⟩ := Option.ite_none_left_eq_some.mp hstep
      obtain rfl := Option.some.inj heq
      exact h.kill (hdies.1 i rfl)

/-- A child that ends while it is marked free, or is found dead, leaves a dead child that
is marked free. -/
theorem not_freeIdle_of_not_diesBusy {l : Event n} (hdies : ¬DiesBusy s l)
    (hstep : s.step l = some t) : ¬t.FreeIdle := by
  intro hfree
  simp only [State.step, Option.ite_none_left_eq_some] at hstep
  obtain ⟨-, hstep⟩ := hstep
  have hkill : ∀ i, t = s.kill i → s.flag i = .busy := by
    rintro i rfl
    by_contra hflag
    exact (hfree i (Flag.eq_free_of_ne hflag)).alive (Function.update_self i _ s.child)
  refine hdies ⟨fun i hends => ?_, fun ok hl i events hmaster hdead => ?_⟩
  · cases l with
    | die j =>
        obtain ⟨-, heq⟩ := Option.ite_none_left_eq_some.mp hstep
        obtain rfl : i = j := hends
        exact hkill i (Option.some.inj heq).symm
    | child j =>
        obtain ⟨rfl, hreceiving, hexit⟩ := hends
        simp only [State.childStep, hreceiving] at hstep
        split at hstep
        · rename_i hto
          rw [hto] at hexit
          cases hexit
        · exact hkill i (Option.some.inj hstep).symm
        · cases hstep
    | arrive | signal | epollWait _ | master _ => exact hends.elim
  · subst hl
    have hreadable : s.Readable (.child i) := Or.inr hdead
    simp only [State.masterStep, hmaster, if_pos hreadable] at hstep
    obtain rfl := Option.some.inj hstep
    exact (hfree i (Function.update_self i _ s.flag)).alive hdead

end Steps

theorem kept_start (n : ℕ) : (State.start n).Kept where
  dead := fun i hdead => by cases hdead
  free := fun _ _ _ => rfl
  busy := fun _ _ => Nat.zero_le 3

/-- The bookkeeping is sound in exactly the runs in which children die or exit only while
they are marked busy, and the master handles the socket of no dead child. -/
theorem freeIdle_iff (n : ℕ) (ls : List (Event n)) (t : State n) :
    Transition.Run ((server n).filter fun s _ t => s.HandsToIdle ∧ t.FreeIdle)
        (State.start n) ls t ↔
      Transition.Run ((server n).restrict DiesBusy) (State.start n) ls t := by
  refine Transition.run_filter_iff_restrict (I := State.Kept) ?_ ?_ (kept_start n)
  · exact fun s l t h hdies hstep => h.step hdies hstep
  · intro s l t h hstep
    refine ⟨fun hP => ?_, fun hdies => ⟨h.freeIdle.handsToIdle, (h.step hdies hstep).freeIdle⟩⟩
    by_contra hdies
    exact not_freeIdle_of_not_diesBusy hdies hstep hP.2

/-- A child is killed while it serves a connection. The master takes the end of its stream
for the message that it has finished. -/
theorem dead_child_marked_free :
    ¬∀ (ls : List (Event 4)) (t : State 4),
      Transition.Run (server 4) (State.start 4) ls t → t.FreeIdle := by
  intro h
  obtain ⟨t, hexec, hflag, hchild⟩ : ∃ t, Transition.exec State.step (State.start 4)
      [.arrive, .epollWait [.listener], .master true, .master true, .master true, .master true,
        .child 0, .die 0, .epollWait [.child 0], .master true] = some t ∧
      t.flag 0 = .free ∧ t.child 0 = .dead := ⟨_, rfl, rfl, rfl⟩
  exact (h _ t (Transition.run_ofFun_iff.mpr hexec) 0 hflag).alive hchild

end PassingServer

end ProcessThreadPool
