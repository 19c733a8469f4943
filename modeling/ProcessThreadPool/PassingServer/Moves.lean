import ProcessThreadPool.PassingServer.Server

/-!
# The steps of the server that passes connections one by one

`State.Moves` lists the steps of the clients, of the master and of the children, with what each
needs and what it leaves.
-/

namespace ProcessThreadPool

namespace PassingServer

variable {n : ℕ}

/-- How many children `wait` can report. -/
def State.deadCount (s : State n) : ℕ :=
  ((List.finRange n).filter fun i => s.child i = .dead).length

/-- What each step needs and what it leaves. -/
inductive State.Moves (s : State n) : Event n → State n → Prop
  | arrive : Moves s .arrive
      { s with backlog := s.backlog ++ [s.clients], clients := s.clients + 1 }
  | signal : Moves s .signal { s with signals := s.signals + 1 }
  | epollWait {events : List (Source n)} (hm : s.master = .waiting) :
      Moves s (.epollWait events) { s with master := .handling events }
  | handled {ok : Bool} (hm : s.master = .handling []) :
      Moves s (.master ok) { s with master := .waiting }
  | accept {ok : Bool} {c : ℕ} {rest : List ℕ} {events : List (Source n)}
      (hm : s.master = .handling (.listener :: events)) :
      Moves s (.master ok) { s with backlog := rest, master := .accepted (some c) events }
  | acceptFails {ok : Bool} {events : List (Source n)}
      (hm : s.master = .handling (.listener :: events)) :
      Moves s (.master ok) { s with master := .accepted none events }
  | exitRequest {ok : Bool} {events : List (Source n)}
      (hm : s.master = .handling (.pipe :: events)) :
      Moves s (.master ok)
        { s with signals := s.signals - bufSize, master := .exiting (List.finRange n) }
  | recv {ok : Bool} {i : Fin n} {events : List (Source n)}
      (hm : s.master = .handling (.child i :: events)) : Moves s (.master ok) (s.recv i events)
  | toSonNetFd {ok : Bool} {netFd : Option ℕ} {events : List (Source n)}
      (hm : s.master = .accepted netFd events) :
      Moves s (.master ok) (s.toSonNetFd netFd events)
  | close {ok : Bool} {netFd : Option ℕ} {events : List (Source n)}
      (hm : s.master = .handed netFd events) : Moves s (.master ok)
        { s with closed := s.closed ++ netFd.toList, master := .handling events }
  | asked {ok : Bool} (hm : s.master = .exiting []) :
      Moves s (.master ok) { s with master := .reaping n }
  | sendExit {ok : Bool} {i : Fin n} {left : List (Fin n)} (hm : s.master = .exiting (i :: left)) :
      Moves s (.master ok) (s.sendExit i left)
  | reapedAll {ok : Bool} (hm : s.master = .reaping 0) :
      Moves s (.master ok) { s with master := .ended }
  | reap {ok : Bool} {left : ℕ} (hm : s.master = .reaping (left + 1))
      (hdead : n - (left + 1) < s.deadCount) :
      Moves s (.master ok) { s with master := .reaping left }
  | receive {i : Fin n} {c : ℕ} {rest : List Message} (hc : s.child i = .receiving)
      (hto : s.toChild i = .connection c :: rest) : Moves s (.child i) { s with
        child := Function.update s.child i (.serving c)
        toChild := Function.update s.toChild i rest }
  | quit {i : Fin n} {rest : List Message} (hc : s.child i = .receiving)
      (hto : s.toChild i = .exit :: rest) : Moves s (.child i) (s.kill i)
  | serve {i : Fin n} {c : ℕ} (hc : s.child i = .serving c) : Moves s (.child i)
      { s with child := Function.update s.child i .reporting }
  | report {i : Fin n} (hc : s.child i = .reporting) : Moves s (.child i) { s with
        child := Function.update s.child i .receiving
        toMaster := Function.update s.toMaster i (s.toMaster i + 3) }
  | die {i : Fin n} : Moves s (.die i) (s.kill i)

section

variable {s t : State n}

theorem masterStep_moves {ok : Bool} (hstep : s.masterStep ok = some t) :
    s.Moves (.master ok) t := by
  rw [State.masterStep] at hstep
  split at hstep
  · cases hstep
  · rename_i hm
    obtain rfl := Option.some.inj hstep
    exact .handled hm
  · rename_i events hm
    split_ifs at hstep
    · split at hstep
      · obtain rfl := Option.some.inj hstep
        exact .accept hm
      · cases hstep
    · obtain rfl := Option.some.inj hstep
      exact .acceptFails hm
  · rename_i events hm
    split_ifs at hstep
    obtain rfl := Option.some.inj hstep
    exact .exitRequest hm
  · rename_i i events hm
    split_ifs at hstep
    obtain rfl := Option.some.inj hstep
    exact .recv hm
  · rename_i netFd events hm
    obtain rfl := Option.some.inj hstep
    exact .toSonNetFd hm
  · rename_i netFd events hm
    obtain rfl := Option.some.inj hstep
    exact .close hm
  · rename_i hm
    obtain rfl := Option.some.inj hstep
    exact .asked hm
  · rename_i i left hm
    obtain rfl := Option.some.inj hstep
    exact .sendExit hm
  · rename_i hm
    obtain rfl := Option.some.inj hstep
    exact .reapedAll hm
  · rename_i left hm
    split_ifs at hstep with hdead
    obtain rfl := Option.some.inj hstep
    exact .reap hm hdead
  · cases hstep

theorem childStep_moves {i : Fin n} (hstep : s.childStep i = some t) :
    s.Moves (.child i) t := by
  rw [State.childStep] at hstep
  split at hstep
  · rename_i hc
    split at hstep
    · rename_i c rest hto
      obtain rfl := Option.some.inj hstep
      exact .receive hc hto
    · rename_i rest hto
      obtain rfl := Option.some.inj hstep
      exact .quit hc hto
    · cases hstep
  · rename_i c hc
    obtain rfl := Option.some.inj hstep
    exact .serve hc
  · rename_i hc
    obtain rfl := Option.some.inj hstep
    exact .report hc
  · cases hstep

theorem step_moves {l : Event n} (hstep : s.step l = some t) :
    s.master ≠ .ended ∧ s.Moves l t := by
  simp only [State.step, Option.ite_none_left_eq_some] at hstep
  obtain ⟨hended, hstep⟩ := hstep
  refine ⟨hended, ?_⟩
  cases l with
  | arrive =>
      obtain rfl := Option.some.inj hstep
      exact .arrive
  | signal =>
      obtain rfl := Option.some.inj hstep
      exact .signal
  | epollWait events =>
      obtain ⟨hready, heq⟩ := Option.ite_none_right_eq_some.mp hstep
      obtain rfl := Option.some.inj heq
      exact .epollWait hready.1
  | master ok => exact masterStep_moves hstep
  | child i => exact childStep_moves hstep
  | die i =>
      obtain ⟨-, heq⟩ := Option.ite_none_left_eq_some.mp hstep
      obtain rfl := Option.some.inj heq
      exact .die

end

end PassingServer

end ProcessThreadPool
