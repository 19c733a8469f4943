import ProcessThreadPool.PassingServer.Bookkeeping

/-!
# Which connections are passed on

`toSonNetFd` does nothing when no flag is free, and returns as if it had sent the
descriptor; the master then closes its own copy. So an accepted connection is passed on
exactly when a flag is free at that moment.
-/

namespace ProcessThreadPool

namespace PassingServer

variable {n : ℕ}

/-- No child dies, and no signal asks for the exit. -/
def Event.Peaceful : Event n → Prop
  | .signal | .die _ => False
  | _ => True

/-- The server as long as no child dies and no exit is requested. -/
def peacefulServer (n : ℕ) : Transition.System (State n) (Event n) :=
  (server n).restrict fun _ l => l.Peaceful

/-- How often a connection was sent to a child. -/
def State.timesSent (s : State n) (c : ℕ) : ℕ := (s.sent.map Prod.snd).count c

/-- A connection of which the master has closed its copy, or is about to, was sent to one
child, once. -/
def State.PassedOn (s : State n) : Prop :=
  ∀ c, (c ∈ s.closed ∨ ∃ events, s.master = .handed (some c) events) → s.timesSent c = 1

/-- When a connection has been accepted, some flag is free. -/
def SomeFree (s : State n) : Event n → Prop
  | .master _ => ∀ c events, s.master = .accepted (some c) events → ∃ i, s.flag i = .free
  | _ => True

/-- The invariant: connections that are waiting or just accepted have not been sent, and no
child is dead or asked to exit. -/
structure State.Passing (s : State n) : Prop where
  alive : ∀ i, s.child i ≠ .dead
  asked : ∀ i, .exit ∉ s.toChild i
  quiet : s.signals = 0
  running : ∀ left, s.master ≠ .exiting left
  known : ∀ c, s.timesSent c ≠ 0 → c < s.clients
  waiting : ∀ c ∈ s.backlog, s.timesSent c = 0 ∧ c < s.clients
  nodup : s.backlog.Nodup
  current : ∀ c events, s.master = .accepted (some c) events →
    s.timesSent c = 0 ∧ c ∉ s.backlog ∧ c < s.clients
  passedOn : s.PassedOn

section Steps

variable {s t : State n} {i : Fin n}

/-- The master has no accepted connection at hand, and is not asking children to exit. -/
def Master.Unconcerned : Master n → Prop
  | .accepted (some _) _ | .handed (some _) _ | .exiting _ => False
  | _ => True

/-- The master goes on to something that has to do with no connection. -/
theorem State.Passing.goOn (h : s.Passing) {m : Master n} (hm : m.Unconcerned) :
    State.Passing { s with master := m } :=
  { h with
    running := fun left heq => by
      rw [show m = .exiting left from heq] at hm
      exact hm
    current := fun c events heq => by
      rw [show m = .accepted (some c) events from heq] at hm
      exact hm.elim
    passedOn := fun c hc => h.passedOn c (Or.inl (hc.resolve_right fun hhanded => by
      obtain ⟨events, heq⟩ := hhanded
      rw [show m = .handed (some c) events from heq] at hm
      exact hm)) }

theorem asked_update (h : ∀ i, .exit ∉ s.toChild i) {l : List Message} (hl : .exit ∉ l)
    (i j : Fin n) : .exit ∉ Function.update s.toChild i l j := by
  by_cases hj : j = i
  · rw [hj, Function.update_self]
    exact hl
  · rw [Function.update_of_ne hj]
    exact h j

theorem timesSent_sent (s t : State n) (i : Fin n) (c d : ℕ) (hsent : t.sent = s.sent ++ [(i, c)]) :
    t.timesSent d = s.timesSent d + if c = d then 1 else 0 := by
  rw [State.timesSent, hsent, List.map_append, List.count_append, List.map_singleton,
    List.count_singleton]
  exact congrArg _ (if_congr beq_iff_eq rfl rfl)

/-- `toSonNetFd` passes the connection on when it finds a child. -/
theorem State.Passing.toSonNetFd (h : s.Passing) {netFd : Option ℕ}
    {events : List (Source n)} (hmaster : s.master = .accepted netFd events)
    (hfree : ∀ c, netFd = some c → ∃ i, s.flag i = .free) :
    (s.toSonNetFd netFd events).Passing := by
  rw [State.toSonNetFd]
  cases hfind : s.findFree with
  | none =>
      cases netFd with
      | none =>
          exact h.goOn trivial
      | some c =>
          obtain ⟨i, hi⟩ := hfree c rfl
          exact absurd hi (of_decide_eq_false (Bool.eq_false_iff.mpr
            (List.find?_eq_none.mp hfind i (List.mem_finRange i))))
  | some i =>
      cases netFd with
      | none =>
          exact { h.goOn (m := .handed none events) trivial with }
      | some c =>
          dsimp only
          rw [if_neg (h.alive i)]
          obtain ⟨hunsent, hbacklog, hclient⟩ := h.current c events hmaster
          have htimes : ∀ d, c ≠ d → ∀ t : State n, t.sent = s.sent ++ [(i, c)] →
              t.timesSent d = s.timesSent d := by
            intro d hd t hsent
            rw [timesSent_sent s t i c d hsent, if_neg hd, Nat.add_zero]
          constructor
          · exact h.alive
          · refine asked_update h.asked (fun hmem => ?_) i
            rcases List.mem_append.mp hmem with hold | hnew
            · exact h.asked i hold
            · cases List.mem_singleton.mp hnew
          · exact h.quiet
          · intro left heq
            cases heq
          · intro d hd
            by_cases hcd : c = d
            · exact hcd ▸ hclient
            · rw [htimes d hcd _ rfl] at hd
              exact h.known d hd
          · intro d hd
            have hcd : c ≠ d := fun heq => hbacklog (heq ▸ hd)
            rw [htimes d hcd _ rfl]
            exact h.waiting d hd
          · exact h.nodup
          · intro d events heq
            cases heq
          · intro d hd
            by_cases hcd : c = d
            · subst hcd
              rw [timesSent_sent s _ i c c rfl, if_pos rfl, hunsent]
            · rw [htimes d hcd _ rfl]
              refine h.passedOn d (Or.inl (hd.resolve_right fun hhanded => ?_))
              obtain ⟨_, heq⟩ := hhanded
              cases heq
              exact hcd rfl

theorem State.Passing.masterStep (h : s.Passing) {ok : Bool} (hstep : s.masterStep ok = some t)
    (hfree : ∀ c events, s.master = .accepted (some c) events → ∃ i, s.flag i = .free) :
    t.Passing := by
  rw [State.masterStep] at hstep
  split at hstep
  · cases hstep
  · obtain rfl := Option.some.inj hstep
    exact h.goOn trivial
  · split_ifs at hstep
    · split at hstep
      · rename_i c rest hbacklog
        obtain rfl := Option.some.inj hstep
        have hwaiting := h.waiting
        have hnodup := h.nodup
        rw [hbacklog] at hwaiting hnodup
        obtain ⟨hfirst, hrest⟩ := List.nodup_cons.mp hnodup
        exact { h with
          running := fun left heq => by cases heq
          waiting := fun d hd => hwaiting d (List.mem_cons_of_mem c hd)
          nodup := hrest
          current := fun d events heq => by
            cases heq
            obtain ⟨hunsent, hclient⟩ := hwaiting c List.mem_cons_self
            exact ⟨hunsent, hfirst, hclient⟩
          passedOn := fun d hd => h.passedOn d (Or.inl (hd.resolve_right fun hhanded => by
            obtain ⟨_, heq⟩ := hhanded
            cases heq)) }
      · cases hstep
    · obtain rfl := Option.some.inj hstep
      exact h.goOn trivial
  · split_ifs at hstep with hsignals
    rw [h.quiet] at hsignals
    exact absurd hsignals (Nat.lt_irrefl 0)
  · split_ifs at hstep
    obtain rfl := Option.some.inj hstep
    exact { h.goOn (m := .handling _) trivial with }
  · rename_i netFd events hmaster
    obtain rfl := Option.some.inj hstep
    exact h.toSonNetFd hmaster fun c hc => hfree c events (hc ▸ hmaster)
  · rename_i netFd events hmaster
    obtain rfl := Option.some.inj hstep
    refine { h.goOn (m := .handling events) trivial with passedOn := fun c hc => ?_ }
    refine h.passedOn c ?_
    rcases hc with hclosed | ⟨_, heq⟩
    · rcases List.mem_append.mp hclosed with hold | hnew
      · exact Or.inl hold
      · exact Or.inr ⟨events, hmaster.trans (by rw [Option.mem_toList.mp hnew])⟩
    · cases heq
  · rename_i hmaster
    exact absurd hmaster (h.running [])
  · rename_i hmaster
    exact absurd hmaster (h.running _)
  · obtain rfl := Option.some.inj hstep
    exact h.goOn trivial
  · split_ifs at hstep
    obtain rfl := Option.some.inj hstep
    exact h.goOn trivial
  · cases hstep

theorem State.Passing.childStep (h : s.Passing) (hstep : s.childStep i = some t) :
    t.Passing := by
  have hlives : ∀ c : Child, c ≠ .dead → ∀ j, Function.update s.child i c j ≠ .dead := by
    intro c hc j
    by_cases hj : j = i
    · rw [hj, Function.update_self]
      exact hc
    · rw [Function.update_of_ne hj]
      exact h.alive j
  rw [State.childStep] at hstep
  split at hstep
  · split at hstep
    · rename_i c rest hto
      obtain rfl := Option.some.inj hstep
      have hrest : .exit ∉ rest := fun hmem =>
        h.asked i (hto ▸ List.mem_cons_of_mem _ hmem)
      exact { h with
        alive := hlives _ fun hc => by cases hc
        asked := asked_update h.asked hrest i }
    · rename_i rest hto
      exact absurd (hto ▸ List.mem_cons_self) (h.asked i)
    · cases hstep
  · obtain rfl := Option.some.inj hstep
    exact { h with alive := hlives _ fun hc => by cases hc }
  · obtain rfl := Option.some.inj hstep
    exact { h with alive := hlives _ fun hc => by cases hc }
  · cases hstep

theorem State.Passing.arrive (h : s.Passing) : State.Passing
    { s with backlog := s.backlog ++ [s.clients], clients := s.clients + 1 } := by
  have hnew : s.timesSent s.clients = 0 := by
    by_contra hne
    exact Nat.lt_irrefl _ (h.known _ hne)
  refine { h with
    known := fun c hc => Nat.lt_succ_of_lt (h.known c hc)
    waiting := fun c hc => ?_
    nodup := ?_
    current := fun c events hmaster => ?_ }
  · rcases List.mem_append.mp hc with hold | hlast
    · obtain ⟨hunsent, hclient⟩ := h.waiting c hold
      exact ⟨hunsent, Nat.lt_succ_of_lt hclient⟩
    · rw [List.mem_singleton.mp hlast]
      exact ⟨hnew, Nat.lt_succ_self _⟩
  · refine List.nodup_append.mpr ⟨h.nodup, List.nodup_singleton _, fun a ha b hb heq => ?_⟩
    have hlt := (h.waiting a ha).2
    rw [heq, List.mem_singleton.mp hb] at hlt
    exact Nat.lt_irrefl _ hlt
  · obtain ⟨hunsent, hbacklog, hclient⟩ := h.current c events hmaster
    refine ⟨hunsent, fun hmem => ?_, Nat.lt_succ_of_lt hclient⟩
    rcases List.mem_append.mp hmem with hold | hlast
    · exact hbacklog hold
    · exact Nat.ne_of_lt hclient (List.mem_singleton.mp hlast)

theorem State.Passing.step (h : s.Passing) {l : Event n} (hpeace : l.Peaceful)
    (hfree : SomeFree s l) (hstep : s.step l = some t) : t.Passing := by
  simp only [State.step, Option.ite_none_left_eq_some] at hstep
  obtain ⟨-, hstep⟩ := hstep
  cases l with
  | arrive =>
      obtain rfl := Option.some.inj hstep
      exact h.arrive
  | signal => exact hpeace.elim
  | epollWait events =>
      obtain ⟨-, heq⟩ := Option.ite_none_right_eq_some.mp hstep
      obtain rfl := Option.some.inj heq
      exact h.goOn trivial
  | master ok => exact h.masterStep hstep hfree
  | child i => exact h.childStep hstep
  | die i => exact hpeace.elim

/-- Without a free flag `toSonNetFd` returns, and has not sent the connection. -/
theorem State.Passing.not_passedOn (h : s.Passing) {l : Event n} (hfree : ¬SomeFree s l)
    (hstep : s.step l = some t) : ¬t.PassedOn := by
  intro hpassed
  simp only [State.step, Option.ite_none_left_eq_some] at hstep
  obtain ⟨-, hstep⟩ := hstep
  cases l with
  | master ok =>
      refine hfree fun c events hmaster => ?_
      by_contra hnone
      have hfind : s.findFree = none := List.find?_eq_none.mpr fun i _ hi =>
        hnone ⟨i, of_decide_eq_true hi⟩
      simp only [State.masterStep, hmaster, State.toSonNetFd, hfind] at hstep
      obtain rfl := Option.some.inj hstep
      have honce := hpassed c (Or.inr ⟨events, rfl⟩)
      have hunsent := (h.current c events hmaster).1
      exact absurd (hunsent.symm.trans honce) (by decide)
  | arrive | signal | epollWait _ | child _ | die _ => exact hfree trivial

end Steps

theorem passing_start (n : ℕ) : (State.start n).Passing where
  alive := fun i hdead => by cases hdead
  asked := fun i => List.not_mem_nil
  quiet := rfl
  running := fun left heq => by cases heq
  known := fun c hc => absurd rfl hc
  waiting := fun c hc => absurd hc List.not_mem_nil
  nodup := List.nodup_nil
  current := fun c events heq => by cases heq
  passedOn := by
    rintro c (hc | ⟨events, heq⟩)
    · exact absurd hc List.not_mem_nil
    · cases heq

/-- As long as no child dies and no exit is requested, the connections are all passed on
in exactly the runs in which some flag is free whenever one has been accepted. -/
theorem passedOn_iff (n : ℕ) (ls : List (Event n)) (t : State n) :
    Transition.Run ((peacefulServer n).filter fun _ _ t => t.PassedOn) (State.start n) ls t ↔
      Transition.Run ((peacefulServer n).restrict SomeFree) (State.start n) ls t := by
  refine Transition.run_filter_iff_restrict (I := State.Passing) ?_ ?_ (passing_start n)
  · exact fun s l t h hfree hstep => h.step hstep.1 hfree hstep.2
  · intro s l t h hstep
    refine ⟨fun hpassed => ?_, fun hfree => (h.step hstep.1 hfree hstep.2).passedOn⟩
    by_contra hfree
    exact h.not_passedOn hfree hstep.2 hpassed

/-- Five clients connect before a child has finished: the fifth connection is closed. -/
theorem fifth_connection_dropped :
    ¬∀ (ls : List (Event 4)) (t : State 4),
      Transition.Run (peacefulServer 4) (State.start 4) ls t → t.PassedOn := by
  intro h
  let client : List (Event 4) := [.arrive, .epollWait [.listener], .master true, .master true,
    .master true, .master true]
  obtain ⟨t, hexec, hclosed, hsent⟩ : ∃ t, Transition.exec State.step (State.start 4)
      (client ++ client ++ client ++ client ++ client) = some t ∧
      4 ∈ t.closed ∧ t.timesSent 4 = 0 := ⟨_, rfl, by decide, by decide⟩
  have hpeace : ∀ l ∈ client ++ client ++ client ++ client ++ client, ∀ _ : State 4,
      l.Peaceful := by
    intro l hl _
    have hclient : l ∈ client := by
      simpa only [List.mem_append, or_self] using hl
    simp only [client, List.mem_cons, List.not_mem_nil, or_false] at hclient
    rcases hclient with rfl | rfl | rfl | rfl | rfl | rfl <;> trivial
  have hrun : Transition.Run (server 4) (State.start 4) _ t :=
    Transition.run_ofFun_iff.mpr hexec
  exact absurd (hsent.symm.trans (h _ t (hrun.restrict hpeace) 4 (Or.inl hclosed))) (by decide)

end PassingServer

end ProcessThreadPool
