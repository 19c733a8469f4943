import ProcessThreadPool.Lib.Progress
import ProcessThreadPool.Lib.Projection
import ProcessThreadPool.Lib.ThreadFamily
import ProcessThreadPool.PassingServer.Moves

/-!
# The exit of the server that passes connections

On a signal the master asks every child to exit and waits for all of them. The request comes
behind the connections that a child has been sent, so a child serves these before it exits, and
as long as no child dies on its own the master never writes to a closed socket. `served` records
the connections that the children have served.
-/

namespace ProcessThreadPool

namespace PassingServer

open ThreadFamily

variable {n : ℕ}

/-! ## Who has been asked to exit -/

section

variable {s t : State n}

/-- The child lives, and no request to exit is on its way. -/
def Untold (s : State n) (i : Fin n) : Prop := s.child i ≠ .dead ∧ .exit ∉ s.toChild i

/-- The child has exited, or the last message on its way is the only request to exit. -/
def Told (s : State n) (i : Fin n) : Prop :=
  s.child i = .dead ∧ s.toChild i = [] ∨
    s.child i ≠ .dead ∧ ∃ front, s.toChild i = front ++ [.exit] ∧ .exit ∉ front

/-- Where the master stands tells who has been asked to exit and who has exited. -/
def Asked (s : State n) : Master n → Prop
  | .exiting left => left.Nodup ∧ (∀ i ∈ left, Untold s i) ∧ ∀ i, i ∉ left → Told s i
  | .reaping left => left ≤ n ∧ (∀ i, Told s i) ∧ n - left ≤ s.deadCount
  | .ended => ∀ i, s.child i = .dead ∧ s.toChild i = []
  | _ => ∀ i, Untold s i

theorem deadCount_mono (h : ∀ i, s.child i = .dead → t.child i = .dead) :
    s.deadCount ≤ t.deadCount :=
  List.Sublist.length_le (List.monotone_filter_right _ fun i hi => by
    simpa using h i (by simpa using hi))

/-- What the children do keeps the master's view. -/
theorem Asked.mono {m : Master n} (h : Asked s m) (hm : m ≠ .ended)
    (huntold : ∀ i, Untold s i → Untold t i) (htold : ∀ i, Told s i → Told t i)
    (hdead : ∀ i, s.child i = .dead → t.child i = .dead) : Asked t m := by
  cases m with
  | exiting left =>
      exact ⟨h.1, fun i hi => huntold i (h.2.1 i hi), fun i hi => htold i (h.2.2 i hi)⟩
  | reaping left =>
      exact ⟨h.1, fun i => htold i (h.2.1 i), h.2.2.trans (deadCount_mono hdead)⟩
  | ended => exact absurd rfl hm
  | _ => exact fun i => huntold i (h i)

/-- A child has been asked or it has not. -/
theorem Asked.told_or_untold {m : Master n} (h : Asked s m) (hm : m ≠ .ended) (i : Fin n) :
    Told s i ∨ Untold s i := by
  cases m with
  | exiting left =>
      by_cases hi : i ∈ left
      · exact Or.inr (h.2.1 i hi)
      · exact Or.inl (h.2.2 i hi)
  | reaping left => exact Or.inl (h.2.1 i)
  | ended => exact absurd rfl hm
  | _ => exact Or.inr (h i)

/-- The request to exit is the last message of a child. -/
theorem Told.last {i : Fin n} (h : Told s i) {rest : List Message}
    (hto : s.toChild i = .exit :: rest) : rest = [] := by
  rcases h with ⟨-, hnil⟩ | ⟨-, front, hfront, hnot⟩
  · rw [hto] at hnil
    cases hnil
  · rw [hto] at hfront
    cases front with
    | nil => exact (List.cons.inj hfront).2
    | cons m front =>
        obtain ⟨rfl, -⟩ := List.cons.inj hfront
        exact absurd List.mem_cons_self hnot

/-- The mail of a child from which at most a connection has been taken. -/
theorem told_of_taken {mail old : List Message}
    (hold : old = mail ∨ ∃ d, old = .connection d :: mail) :
    (.exit ∉ old → .exit ∉ mail) ∧
      ((∃ front, old = front ++ [.exit] ∧ .exit ∉ front) →
        ∃ front, mail = front ++ [.exit] ∧ .exit ∉ front) := by
  rcases hold with rfl | ⟨d, rfl⟩
  · exact ⟨id, id⟩
  · refine ⟨fun hnot hmem => hnot (List.mem_cons_of_mem _ hmem), ?_⟩
    rintro ⟨front, hfront, hnot⟩
    cases front with
    | nil =>
        have hhead := (List.cons.inj hfront).1
        cases hhead
    | cons m front =>
        exact ⟨front, (List.cons.inj hfront).2, fun hmem => hnot (List.mem_cons_of_mem _ hmem)⟩

/-- A child goes on without exiting. -/
theorem Asked.goOn {m : Master n} (h : Asked s m) (hm : m ≠ .ended) {i : Fin n} (c : Child)
    (mail : List Message) (hc : c ≠ .dead) (hlive : s.child i ≠ .dead)
    (hchild : t.child = Function.update s.child i c)
    (hto : t.toChild = Function.update s.toChild i mail)
    (hmail : s.toChild i = mail ∨ ∃ d, s.toChild i = .connection d :: mail) : Asked t m := by
  obtain ⟨huntold, htold⟩ := told_of_taken hmail
  have hother : ∀ j, j ≠ i → t.child j = s.child j ∧ t.toChild j = s.toChild j := by
    intro j hj
    rw [hchild, hto, Function.update_of_ne hj, Function.update_of_ne hj]
    exact ⟨rfl, rfl⟩
  have hself : t.child i = c ∧ t.toChild i = mail := by
    rw [hchild, hto, Function.update_self, Function.update_self]
    exact ⟨rfl, rfl⟩
  refine h.mono hm (fun j hj => ?_) (fun j hj => ?_) fun j hj => ?_
  · by_cases hji : j = i
    · subst hji
      rw [Untold, hself.1, hself.2]
      exact ⟨hc, huntold hj.2⟩
    · rw [Untold, (hother j hji).1, (hother j hji).2]
      exact hj
  · by_cases hji : j = i
    · subst hji
      rw [Told, hself.1, hself.2]
      exact Or.inr ⟨hc, htold (hj.resolve_left fun hdead => hlive hdead.1).2⟩
    · rw [Told, (hother j hji).1, (hother j hji).2]
      exact hj
  · by_cases hji : j = i
    · subst hji
      exact absurd hj hlive
    · rw [(hother j hji).1]
      exact hj

/-- A child that has been asked exits. -/
theorem Asked.quit {m : Master n} (h : Asked s m) (hm : m ≠ .ended) {i : Fin n}
    {rest : List Message} (hto : s.toChild i = .exit :: rest) : Asked (s.kill i) m := by
  have hother : ∀ j, j ≠ i →
      (s.kill i).child j = s.child j ∧ (s.kill i).toChild j = s.toChild j :=
    fun j hj => ⟨Function.update_of_ne hj _ _, Function.update_of_ne hj _ _⟩
  refine h.mono hm (fun j hj => ?_) (fun j hj => ?_) fun j hj => ?_
  · by_cases hji : j = i
    · subst hji
      rw [Untold, hto] at hj
      exact absurd List.mem_cons_self hj.2
    · rw [Untold, (hother j hji).1, (hother j hji).2]
      exact hj
  · by_cases hji : j = i
    · subst hji
      exact Or.inl ⟨Function.update_self _ _ _, Function.update_self _ _ _⟩
    · rw [Told, (hother j hji).1, (hother j hji).2]
      exact hj
  · by_cases hji : j = i
    · subst hji
      exact Function.update_self _ _ _
    · rw [(hother j hji).1]
      exact hj

/-- `toSonNetFd` before the exit: every child lives. -/
theorem toSonNetFd_cases (h : ∀ i, Untold s i) (netFd : Option ℕ) (events : List (Source n)) :
    (s.toSonNetFd netFd events).master = .handed netFd events ∧
      (s.toSonNetFd netFd events).child = s.child ∧
      ((s.toSonNetFd netFd events).toChild = s.toChild ∧
          (s.toSonNetFd netFd events).sent = s.sent ∨
        ∃ i c, (s.toSonNetFd netFd events).toChild =
            Function.update s.toChild i (s.toChild i ++ [.connection c]) ∧
          (s.toSonNetFd netFd events).sent = s.sent ++ [(i, c)]) := by
  rw [State.toSonNetFd]
  cases s.findFree with
  | none => exact ⟨rfl, rfl, Or.inl ⟨rfl, rfl⟩⟩
  | some i =>
      cases netFd with
      | none => exact ⟨rfl, rfl, Or.inl ⟨rfl, rfl⟩⟩
      | some c =>
          dsimp only
          rw [if_neg (h i).1]
          exact ⟨rfl, rfl, Or.inr ⟨i, c, rfl, rfl⟩⟩

/-- `sendExit` reaches a living child. -/
theorem sendExit_eq {i : Fin n} (h : Untold s i) (left : List (Fin n)) :
    s.sendExit i left = { s with
      toChild := Function.update s.toChild i (s.toChild i ++ [.exit])
      master := .exiting left } := if_neg h.1

theorem Asked.sendExit {i : Fin n} {left : List (Fin n)} (h : Asked s (.exiting (i :: left))) :
    Asked (s.sendExit i left) (.exiting left) := by
  obtain ⟨hnodup, huntold, htold⟩ := h
  obtain ⟨hi, hleft⟩ := List.nodup_cons.mp hnodup
  have hself := huntold i List.mem_cons_self
  rw [sendExit_eq hself]
  have hother : ∀ j, j ≠ i →
      Function.update s.toChild i (s.toChild i ++ [.exit]) j = s.toChild j :=
    fun j hj => Function.update_of_ne hj _ _
  refine ⟨hleft, fun j hj => ?_, fun j hj => ?_⟩
  · have hji : j ≠ i := fun heq => hi (heq ▸ hj)
    refine ⟨(huntold j (List.mem_cons_of_mem i hj)).1, ?_⟩
    simp only [hother j hji]
    exact (huntold j (List.mem_cons_of_mem i hj)).2
  · by_cases hji : j = i
    · subst hji
      exact Or.inr ⟨hself.1, s.toChild j, Function.update_self _ _ _, hself.2⟩
    · have hold := htold j (by simp [hji, hj])
      simp only [Told, hother j hji]
      exact hold

/-- When as many children have exited as there are, all have. -/
theorem all_dead (h : n ≤ s.deadCount) (i : Fin n) : s.child i = .dead := by
  have hlength := List.length_filter_le (fun i => decide (s.child i = .dead)) (List.finRange n)
  rw [List.length_finRange] at hlength
  have hall := List.length_filter_eq_length_iff.mp
    ((Nat.le_antisymm hlength h).trans (List.length_finRange).symm)
  simpa using hall i (List.mem_finRange i)

theorem Asked.step (h : Asked s s.master) {l : Event n} (hl : ∀ i, l ≠ .die i)
    (hstep : s.step l = some t) : Asked t t.master := by
  obtain ⟨hended, hmoves⟩ := step_moves hstep
  cases hmoves with
  | arrive | signal =>
      exact h.mono hended (fun _ => id) (fun _ => id) fun _ => id
  | epollWait hm | handled hm | accept hm | acceptFails hm | recv hm | close hm =>
      rw [hm] at h
      exact h
  | exitRequest hm =>
      rw [hm] at h
      exact ⟨List.nodup_finRange n, fun i _ => h i,
        fun i hi => absurd (List.mem_finRange i) hi⟩
  | @toSonNetFd ok netFd events hm =>
      rw [hm] at h
      obtain ⟨hmaster, hchild, hcases⟩ := toSonNetFd_cases h netFd events
      rw [hmaster]
      intro i
      rw [Untold, hchild]
      refine ⟨(h i).1, ?_⟩
      rcases hcases with ⟨hto, -⟩ | ⟨j, c, hto, -⟩
      · rw [hto]
        exact (h i).2
      · rw [hto]
        by_cases hij : i = j
        · subst hij
          rw [Function.update_self]
          simpa using (h i).2
        · rw [Function.update_of_ne hij]
          exact (h i).2
  | asked hm =>
      rw [hm] at h
      exact ⟨le_rfl, fun i => h.2.2 i List.not_mem_nil, by omega⟩
  | @sendExit ok i left hm =>
      rw [hm] at h
      have hmaster : (s.sendExit i left).master = .exiting left := by
        rw [sendExit_eq (h.2.1 i List.mem_cons_self)]
      rw [hmaster]
      exact h.sendExit
  | reapedAll hm =>
      rw [hm] at h
      intro i
      have hdead := all_dead h.2.2 i
      exact ⟨hdead, ((h.2.1 i).resolve_right fun hlive => hlive.1 hdead).2⟩
  | @reap ok left hm hdead =>
      rw [hm] at h
      refine ⟨Nat.le_of_succ_le h.1, h.2.1, ?_⟩
      have hle := h.1
      change n - left ≤ s.deadCount
      omega
  | @receive i c rest hc hto =>
      exact h.goOn hended (.serving c) rest nofun (by rw [hc]; nofun) rfl rfl (Or.inr ⟨c, hto⟩)
  | quit hc hto => exact h.quit hended hto
  | @serve i c hc =>
      exact h.goOn hended .reporting (s.toChild i) nofun (by rw [hc]; nofun) rfl
        (Function.update_eq_self i s.toChild).symm (Or.inl rfl)
  | @report i hc =>
      exact h.goOn hended .receiving (s.toChild i) nofun (by rw [hc]; nofun) rfl
        (Function.update_eq_self i s.toChild).symm (Or.inl rfl)
  | die => exact absurd rfl (hl _)

end

/-! ## What the children have served -/

/-- The server with the record of what the children have served. -/
structure Served (n : ℕ) where
  base : State n
  served : List (Fin n × ℕ)

/-- No child has served anything. -/
def Served.start (n : ℕ) : Served n := ⟨State.start n, []⟩

/-- The connection that a child has served with its next statement. -/
def State.finished (s : State n) : Event n → List (Fin n × ℕ)
  | .child i =>
      match s.child i with
      | .serving c => [(i, c)]
      | _ => []
  | _ => []

/-- One step. -/
def Served.step (s : Served n) (l : Event n) : Option (Served n) :=
  (s.base.step l).map fun t => ⟨t, s.served ++ s.base.finished l⟩

/-- No child dies on its own. -/
def Event.survives : Event n → Bool
  | .die _ => false
  | _ => true

/-- The runs in which no child dies on its own. -/
def surviving (n : ℕ) : Transition.System (Served n) (Event n) :=
  (Transition.System.ofFun (Served.start n) Served.step).restrict fun _ l => l.survives = true

/-- The connections of a list that go to one child. -/
def ofChild (l : List (Fin n × ℕ)) (i : Fin n) : List ℕ :=
  (l.filter fun p => p.1 = i).map Prod.snd

/-- The connection that a child serves. -/
def Child.current : Child → List ℕ
  | .serving c => [c]
  | _ => []

/-- The connection in a message. -/
def Message.connection? : Message → Option ℕ
  | .connection c => some c
  | .exit => none

/-- What a child was sent it has served, it serves it, or it is on its way. -/
def Delivered (s : Served n) (i : Fin n) : Prop :=
  ofChild s.base.sent i = ofChild s.served i ++ (s.base.child i).current ++
    (s.base.toChild i).filterMap Message.connection?

section

variable {s t : Served n}

theorem ofChild_append (l m : List (Fin n × ℕ)) (i : Fin n) :
    ofChild (l ++ m) i = ofChild l i ++ ofChild m i := by
  rw [ofChild, List.filter_append, List.map_append, ofChild, ofChild]

theorem ofChild_singleton (i j : Fin n) (c : ℕ) :
    ofChild [(i, c)] j = if i = j then [c] else [] := by
  rw [ofChild]
  by_cases hij : i = j
  · simp [hij]
  · simp [hij]

theorem step_base {l : Event n} (hstep : s.step l = some t) :
    s.base.step l = some t.base ∧ t.served = s.served ++ s.base.finished l := by
  obtain ⟨u, hu, rfl⟩ := Option.map_eq_some_iff.mp hstep
  exact ⟨hu, rfl⟩

/-- Nothing that concerns a child has changed. -/
theorem Delivered.frame {i : Fin n} (h : Delivered s i) (hsent : t.base.sent = s.base.sent)
    (hserved : t.served = s.served) (hchild : t.base.child i = s.base.child i)
    (hto : t.base.toChild i = s.base.toChild i) : Delivered t i := by
  rw [Delivered, hsent, hserved, hchild, hto]
  exact h

theorem Delivered.step (hasked : Asked s.base s.base.master)
    (h : ∀ i, Delivered s i) {l : Event n} (hl : l.survives = true)
    (hstep : s.step l = some t) (i : Fin n) : Delivered t i := by
  obtain ⟨hbase, hserved⟩ := step_base hstep
  obtain ⟨hended, hmoves⟩ := step_moves hbase
  generalize hu : t.base = u at hmoves
  have hi := h i
  cases hmoves with
  | @toSonNetFd ok netFd events hm =>
      replace hserved : t.served = s.served := hserved.trans (List.append_nil _)
      rw [hm] at hasked
      obtain ⟨-, hchild, hcases⟩ := toSonNetFd_cases hasked netFd events
      rw [Delivered, hu, hserved, hchild]
      rcases hcases with ⟨hto, hsent⟩ | ⟨j, c, hto, hsent⟩
      · rw [hto, hsent]
        exact hi
      · rw [hto, hsent, ofChild_append, ofChild_singleton]
        by_cases hij : j = i
        · subst hij
          rw [if_pos rfl, Function.update_self, List.filterMap_append, ← List.append_assoc]
          exact congrArg (· ++ [c]) hi
        · rw [if_neg hij, Function.update_of_ne (Ne.symm hij), List.append_nil]
          exact hi
  | @sendExit ok j left hm =>
      replace hserved : t.served = s.served := hserved.trans (List.append_nil _)
      rw [hm] at hasked
      rw [Delivered, hu, hserved, sendExit_eq (hasked.2.1 j List.mem_cons_self)]
      by_cases hij : i = j
      · subst hij
        simp only [Function.update_self, List.filterMap_append]
        rw [show [Message.exit].filterMap Message.connection? = [] from rfl, List.append_nil]
        exact hi
      · simp only [Function.update_of_ne hij]
        exact hi
  | @receive j c rest hc hto =>
      simp only [State.finished, hc, List.append_nil] at hserved
      rw [Delivered, hu, hserved]
      by_cases hij : i = j
      · subst hij
        rw [Delivered, hc, hto] at hi
        simp only [Function.update_self]
        rw [hi, List.append_assoc, List.append_assoc]
        rfl
      · simp only [Function.update_of_ne hij]
        exact hi
  | @quit j rest hc hto =>
      simp only [State.finished, hc, List.append_nil] at hserved
      have hrest := ((hasked.told_or_untold hended j).resolve_right fun huntold => by
        rw [Untold, hto] at huntold
        exact huntold.2 List.mem_cons_self).last hto
      rw [Delivered, hu, hserved]
      by_cases hij : i = j
      · subst hij
        rw [Delivered, hc, hto, hrest] at hi
        simp only [State.kill, Function.update_self]
        exact hi
      · simp only [State.kill, Function.update_of_ne hij]
        exact hi
  | @serve j c hc =>
      simp only [State.finished, hc] at hserved
      rw [Delivered, hu, hserved, ofChild_append, ofChild_singleton]
      by_cases hij : i = j
      · subst hij
        rw [Delivered, hc] at hi
        simp only [Function.update_self, if_true]
        rw [hi, List.append_assoc, List.append_assoc, List.append_assoc]
        rfl
      · simp only [Function.update_of_ne hij, if_neg (Ne.symm hij), List.append_nil]
        exact hi
  | @report j hc =>
      simp only [State.finished, hc, List.append_nil] at hserved
      rw [Delivered, hu, hserved]
      by_cases hij : i = j
      · subst hij
        rw [Delivered, hc] at hi
        simp only [Function.update_self]
        exact hi
      · simp only [Function.update_of_ne hij]
        exact hi
  | die => cases hl
  | recv hm =>
      replace hserved : t.served = s.served := hserved.trans (List.append_nil _)
      exact hi.frame (by rw [hu]; rfl) hserved (by rw [hu]; rfl) (by rw [hu]; rfl)
  | _ =>
      replace hserved : t.served = s.served := hserved.trans (List.append_nil _)
      exact hi.frame (by rw [hu]) hserved (by rw [hu]) (by rw [hu])

/-- What holds in every state that a run without deaths reaches. -/
structure Orderly (s : Served n) : Prop where
  asked : Asked s.base s.base.master
  delivered : ∀ i, Delivered s i

theorem Orderly.step (h : Orderly s) {l : Event n} (hl : l.survives = true)
    (hstep : s.step l = some t) : Orderly t := by
  refine ⟨h.asked.step (fun i heq => ?_) (step_base hstep).1,
    Delivered.step h.asked h.delivered hl hstep⟩
  rw [heq] at hl
  cases hl

theorem inductive_surviving : Transition.Inductive (surviving n) Orderly :=
  .restrict (by
    rintro s rfl
    exact ⟨fun i => ⟨nofun, List.not_mem_nil⟩, fun i => rfl⟩)
    fun _ _ _ h hl hstep => h.step hl hstep

/-- As long as no child dies on its own, the connections that a child was sent are those it has
served, in order, then the one it serves, then those on their way; and the master is not ended
by a closed socket: when it ends, all children have exited and have served everything they were
sent. -/
theorem ended_served_all (hs : Transition.Reachable (surviving n) s) :
    (∀ i, ofChild s.base.sent i = ofChild s.served i ++ (s.base.child i).current ++
      (s.base.toChild i).filterMap Message.connection?) ∧
      (s.base.master = .ended →
        ∀ i, s.base.child i = .dead ∧ ofChild s.served i = ofChild s.base.sent i) := by
  have h := inductive_surviving.reachable hs
  refine ⟨h.delivered, fun hended i => ?_⟩
  have hasked := h.asked
  rw [hended] at hasked
  obtain ⟨hdead, hto⟩ := hasked i
  have hi : ofChild s.base.sent i = ofChild s.served i := by
    simpa [Delivered, hdead, hto, Child.current] using h.delivered i
  exact ⟨hdead, hi.symm⟩

/-- A signal comes while the first child has a connection on its way. -/
theorem ended_served_all_two : ∃ s : Served 2, s.base.master = .ended ∧
    s.base.sent = [(0, 0)] ∧ ofChild s.served 0 = ofChild s.base.sent 0 := by
  have hs : ∃ s : Served 2, Transition.exec
      (fun s l => if Event.survives l = true then Served.step s l else none) (Served.start 2)
      [.arrive, .epollWait [.listener], .master true, .master true, .master true, .signal,
        .master true, .epollWait [.pipe], .master true, .master true, .master true, .master true,
        .child 1, .child 0, .child 0, .child 0, .child 0, .master true, .master true,
        .master true] = some s ∧ s.base.master = .ended ∧ s.base.sent = [(0, 0)] :=
    ⟨_, rfl, rfl, rfl⟩
  obtain ⟨s, hexec, hended, hsent⟩ := hs
  exact ⟨s, hended, hsent,
    ((ended_served_all (Transition.reachable_restrict_of_exec hexec)).2 hended 0).2⟩

/-! ## The master ends -/

/-- The statements that are left to a child that has no mail. -/
def Child.left : Child → ℕ
  | .serving _ => 2
  | .reporting => 1
  | .receiving | .dead => 0

/-- The statements that a message brings its child. -/
def Message.left : Message → ℕ
  | .connection _ => 3
  | .exit => 1

/-- The statements that are left to the master, each request to exit with its reception. -/
def Master.left : Master n → ℕ
  | .exiting left => 2 * left.length + (n + 2)
  | .reaping left => left + 1
  | _ => 0

/-- A child with its mail. -/
def State.mailbox (s : State n) (i : Fin n) : Child × List Message := (s.child i, s.toChild i)

/-- The statements that all its mail brings a child. -/
def inboxLeft : List Message → ℕ
  | [] => 0
  | m :: mail => m.left + inboxLeft mail

/-- The statements that are left to a child. -/
def mailLeft (a : Child × List Message) : ℕ := a.1.left + inboxLeft a.2

/-- The statements that are left to all of them. -/
def State.left (s : State n) : ℕ := total mailLeft s.mailbox + s.master.left

/-- The step of the master or of a child. -/
def Event.byServer : Event n → Bool
  | .master _ | .child _ => true
  | _ => false

/-- The master is sending the requests to exit, or waits for the children. -/
def Master.ending : Master n → Bool
  | .exiting _ | .reaping _ | .ended => true
  | _ => false

theorem left_master (s : State n) (m : Master n) :
    State.left { s with master := m } = total mailLeft s.mailbox + m.left := rfl

theorem inboxLeft_append (mail : List Message) (m : Message) :
    inboxLeft (mail ++ [m]) = inboxLeft mail + m.left := by
  induction mail with
  | nil => simp only [List.nil_append, inboxLeft, Nat.add_comm]
  | cons first mail ih => rw [List.cons_append, inboxLeft, inboxLeft, ih, Nat.add_assoc]

theorem mailbox_update {s t : State n} {i : Fin n} (c : Child) (mail : List Message)
    (hchild : t.child = Function.update s.child i c)
    (hto : t.toChild = Function.update s.toChild i mail) :
    t.mailbox = Function.update s.mailbox i (c, mail) := by
  funext j
  rw [State.mailbox, hchild, hto]
  by_cases hji : j = i
  · subst hji
    simp only [Function.update_self]
  · simp only [Function.update_of_ne hji, State.mailbox]

theorem spend_child {s t : State n} {i : Fin n} {a : Child × List Message}
    (hmailbox : t.mailbox = Function.update s.mailbox i a) (hmaster : t.master = s.master)
    (hle : mailLeft a + 1 ≤ mailLeft (s.mailbox i)) : t.left + 1 ≤ s.left := by
  have htotal := total_update_add mailLeft s.mailbox i a
  rw [State.left, State.left, hmailbox, hmaster]
  omega

theorem spend_exit {s t : State n} {l : Event n} (hasked : Asked s s.master)
    (hending : s.master.ending = true) (hl : l.survives = true) (hstep : s.step l = some t) :
    t.master.ending = true ∧ t.left + l.byServer.toNat ≤ s.left := by
  obtain ⟨hended, hmoves⟩ := step_moves hstep
  cases hmoves with
  | arrive | signal => exact ⟨hending, le_rfl⟩
  | epollWait hm | handled hm | accept hm | acceptFails hm | recv hm | close hm
  | exitRequest hm | toSonNetFd hm =>
      rw [hm] at hending
      cases hending
  | asked hm | reapedAll hm | reap hm =>
      refine ⟨rfl, ?_⟩
      rw [left_master, State.left, hm]
      simp only [Master.left, Event.byServer, Bool.toNat_true, List.length_nil]
      omega
  | @sendExit ok i left hm =>
      rw [hm] at hasked
      rw [sendExit_eq (hasked.2.1 i List.mem_cons_self)]
      refine ⟨rfl, ?_⟩
      have htotal := total_update_add mailLeft s.mailbox i
        (s.child i, s.toChild i ++ [.exit])
      have hmailbox := mailbox_update (s := s) (t := { s with
        toChild := Function.update s.toChild i (s.toChild i ++ [.exit])
        master := .exiting left }) (i := i) (s.child i) _
        (Function.update_eq_self i s.child).symm rfl
      rw [State.left, State.left, hmailbox, hm]
      simp only [mailLeft, State.mailbox, inboxLeft_append, Message.left, Master.left,
        List.length_cons, Event.byServer, Bool.toNat_true] at htotal ⊢
      omega
  | @receive i c rest hc hto =>
      refine ⟨hending, spend_child (i := i) (mailbox_update _ _ rfl rfl) rfl ?_⟩
      rw [State.mailbox, hc, hto, mailLeft, mailLeft]
      simp only [Child.left, inboxLeft, Message.left]
      omega
  | @quit i rest hc hto =>
      refine ⟨hending, spend_child (i := i) (mailbox_update _ _ rfl rfl) rfl ?_⟩
      rw [State.mailbox, hc, hto, mailLeft, mailLeft]
      simp only [Child.left, inboxLeft, Message.left]
      omega
  | @serve i c hc =>
      refine ⟨hending, spend_child (i := i) (mailbox_update _ (s.toChild i) rfl
        (Function.update_eq_self i s.toChild).symm) rfl ?_⟩
      rw [State.mailbox, hc, mailLeft, mailLeft]
      simp only [Child.left]
      omega
  | @report i hc =>
      refine ⟨hending, spend_child (i := i) (mailbox_update _ (s.toChild i) rfl
        (Function.update_eq_self i s.toChild).symm) rfl ?_⟩
      rw [State.mailbox, hc, mailLeft, mailLeft]
      simp only [Child.left]
      omega
  | die => cases hl

theorem deadCount_of_all {s : State n} (h : ∀ i, s.child i = .dead) : s.deadCount = n := by
  simp [State.deadCount, h]

/-- A child that has been asked and has not exited goes on. -/
theorem child_enabled {s : State n} {i : Fin n} (htold : Told s i) (hlive : s.child i ≠ .dead) :
    ∃ t, s.childStep i = some t := by
  obtain ⟨-, front, hto, -⟩ := htold.resolve_left fun hdead => hlive hdead.1
  rw [State.childStep]
  cases hc : s.child i with
  | receiving =>
      cases front with
      | nil =>
          rw [hto]
          exact ⟨_, rfl⟩
      | cons m front =>
          rw [hto]
          cases m <;> exact ⟨_, rfl⟩
  | serving | reporting => exact ⟨_, rfl⟩
  | dead => exact absurd hc hlive

theorem exit_enabled {s : State n} (hasked : Asked s s.master)
    (hending : s.master.ending = true) (hgoal : s.master ≠ .ended) :
    ∃ l t, Event.byServer l = true ∧ l.survives = true ∧ s.step l = some t := by
  have hmaster : ∀ {t : State n}, s.masterStep true = some t →
      ∃ l t, Event.byServer l = true ∧ l.survives = true ∧ s.step l = some t := by
    intro t ht
    refine ⟨.master true, t, rfl, rfl, ?_⟩
    rw [State.step, if_neg hgoal]
    exact ht
  cases hm : s.master with
  | exiting left =>
      cases left with
      | nil => exact hmaster (by simp only [State.masterStep, hm]; rfl)
      | cons i left => exact hmaster (by simp only [State.masterStep, hm]; rfl)
  | reaping left =>
      rw [hm] at hasked
      cases left with
      | zero => exact hmaster (by simp only [State.masterStep, hm]; rfl)
      | succ left =>
          by_cases hdead : n - (left + 1) < s.deadCount
          · refine hmaster (t := { s with master := .reaping left }) ?_
            simp only [State.masterStep, hm]
            exact if_pos hdead
          · obtain ⟨i, hi⟩ : ∃ i, s.child i ≠ .dead := by
              by_contra hall
              rw [deadCount_of_all fun i => not_not.mp fun hi => hall ⟨i, hi⟩] at hdead
              have hle := hasked.1
              omega
            obtain ⟨t, ht⟩ := child_enabled (hasked.2.1 i) hi
            refine ⟨.child i, t, rfl, rfl, ?_⟩
            rw [State.step, if_neg hgoal]
            exact ht
  | ended => exact absurd hm hgoal
  | _ =>
      rw [hm] at hending
      cases hending

theorem exit_progress : Transition.Progress (surviving n) Event.byServer
    (fun s => s.base.master = .ended) (fun s => Orderly s ∧ s.base.master.ending = true)
    (fun s => s.base.left) where
  keep := by
    rintro s l t ⟨h, hending⟩ - ⟨hl, hstep⟩
    exact ⟨h.step hl hstep, (spend_exit h.asked hending hl (step_base hstep).1).1⟩
  spend := by
    rintro s l t ⟨h, hending⟩ - ⟨hl, hstep⟩
    exact (spend_exit h.asked hending hl (step_base hstep).1).2
  enabled := by
    rintro s ⟨h, hending⟩ hgoal
    obtain ⟨l, t, hown, hl, hstep⟩ := exit_enabled h.asked hending hgoal
    refine ⟨l, ⟨t, s.served ++ s.base.finished l⟩, hown, hl, ?_⟩
    change s.step l = _
    rw [Served.step, hstep]
    rfl

/-- As long as no child dies on its own, a master that sends the requests to exit or waits for
its children ends after a bounded number of statements of its own and of the children. -/
theorem master_finishes (hs : Transition.Reachable (surviving n) s)
    (hending : s.base.master.ending = true) :
    Transition.Finishes (surviving n) Event.byServer (fun s => s.base.master = .ended) s :=
  exit_progress.finishes ⟨inductive_surviving.reachable hs, hending⟩

theorem master_finishes_two : ∃ s : Served 2, s.base.sent = [(0, 0)] ∧ s.served = [] ∧
    Transition.Finishes (surviving 2) Event.byServer (fun s => s.base.master = .ended) s := by
  have hs : ∃ s : Served 2, Transition.exec
      (fun s l => if Event.survives l = true then Served.step s l else none) (Served.start 2)
      [.arrive, .epollWait [.listener], .master true, .master true, .master true, .signal,
        .master true, .epollWait [.pipe], .master true] = some s ∧
        s.base.sent = [(0, 0)] ∧ s.served = [] ∧ s.base.master.ending = true :=
    ⟨_, rfl, rfl, rfl, rfl⟩
  obtain ⟨s, hexec, hsent, hserved, hending⟩ := hs
  exact ⟨s, hsent, hserved,
    master_finishes (Transition.reachable_restrict_of_exec hexec) hending⟩

end

end PassingServer

end ProcessThreadPool
