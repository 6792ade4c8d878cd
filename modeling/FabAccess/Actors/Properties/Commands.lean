import FabAccess.Actors.Properties.Wiring

/-!
# 機械の状態から、行われることまで

* `Drives` — driver の一歩が変えるもの
* `Keeping` — 一つの driver と、その機械の状態の移り変わりとの関係
* `Survivable` — MQTT の task が次の結果の後も続くこと
* `started_actors_follow` — どの actor も、自分の機械が通った状態を順に行う
-/

namespace FabAccess.Actors

open Infra

variable {sig : Signals MachineState} {w w' : ActorWorld sig}

/-! ## driver の一歩 -/

/-- 機械の側から来るのでない一歩が、driver を `d` から変える。 -/
inductive Drives (d : ActorDriver sig) (m : ActorMove MachineState) : ActorDriver sig → Prop
  | idle (signal : sig.State) (hvalue : sig.value signal = sig.value d.signal)
      (hdue : sig.due signal = sig.due d.signal) (hfuture : m = .future true → d.future = none) :
      Drives d m { d with signal }
  | finished (k : Nat) (hm : m = .future true) (hfuture : d.future = some k) :
      Drives d m { d with future := none }
  | handed (signal : sig.State) (hvalue : sig.value signal = sig.value d.signal)
      (hdue : sig.due d.signal = true) (hdue' : sig.due signal = false) (hfuture : d.future = none)
      (hm : m = .signal) :
      Drives d m ⟨signal, d.actor ++ [sig.value d.signal], some d.actor.length⟩

/-- 機械の側の変化のほかの歩は、driver の歩である。 -/
theorem drives_of_step (h : Following w) {m : ActorMove MachineState}
    (hset : ∀ state, m ≠ .set state) (hclose : m ≠ .close) (hstep : w.step m = some w') :
    Drives w.driver m w'.driver := by
  cases m with
  | poll =>
    simp only [ActorWorld.step] at hstep
    split at hstep
    · cases hstep
      exact .idle _ rfl rfl (by simp)
    · cases hstep
  | future ready =>
    simp only [ActorWorld.step] at hstep
    split at hstep
    · cases hstep
      show Drives w.driver (.future ready) (w.driver.pollFuture ready).1
      cases hfuture : w.driver.future with
      | none =>
        have hsame : w.driver.pollFuture ready = (w.driver, .signal, []) := by
          simp [ActorDriver.pollFuture, hfuture]
        rw [hsame]
        exact .idle _ rfl rfl fun _ => hfuture
      | some k =>
        cases ready with
        | true =>
          have hdone : (w.driver.pollFuture true).1 = { w.driver with future := none } := by
            simp [ActorDriver.pollFuture, hfuture]
          rw [hdone]
          exact .finished k rfl hfuture
        | false =>
          have hsame : (w.driver.pollFuture false).1 = w.driver := by
            simp [ActorDriver.pollFuture, hfuture]
          rw [hsame]
          exact .idle _ rfl rfl (by simp)
    · cases hstep
  | signal =>
    simp only [ActorWorld.step] at hstep
    split at hstep
    · next hpc =>
      cases hstep
      show Drives w.driver .signal w.driver.pollSignal.1
      have hsame := sig.poll_same w.driver.signal
      rcases hpoll : sig.pollChange w.driver.signal with ⟨change, s⟩
      rw [hpoll] at hsame
      simp only [ActorDriver.pollSignal, hpoll]
      cases hdue : sig.due w.driver.signal with
      | true =>
        obtain ⟨hready, hdue'⟩ := sig.poll_due _ hdue
        rw [hpoll] at hready hdue'
        cases hready
        exact .handed s hsame.1 hdue hdue' (h.signal hpc) rfl
      | false =>
        -- 渡すべき変化が無ければ、終わっていてもいなくても driver は変わらない
        cases hend : sig.ended w.driver.signal with
        | true =>
          obtain ⟨hready, hdue'⟩ := sig.poll_ended _ hdue hend
          rw [hpoll] at hready hdue'
          cases hready
          exact .idle s hsame.1 (hdue'.trans hdue.symm) (by simp)
        | false =>
          obtain ⟨hready, hdue'⟩ := sig.poll_pending _ hdue hend
          rw [hpoll] at hready hdue'
          cases hready
          exact .idle s hsame.1 (hdue'.trans hdue.symm) (by simp)
    · cases hstep
  | set state => exact absurd rfl (hset state)
  | close => exact absurd rfl hclose

/-! ## 一つの driver -/

/-- driver の行い終えた状態。最後の `apply` は、future が終わるまで数えない。 -/
def finished (d : ActorDriver sig) : List MachineState :=
  match d.future with
  | none => d.actor
  | some _ => d.actor.dropLast

/-- 機械が `history` の順に変わってきたときの driver。 -/
structure Keeping (history : List MachineState) (w : ActorWorld sig) : Prop where
  following : Following w
  value : history.getLast? = some (sig.value w.driver.signal)
  latest : ∀ k, w.driver.future = some k → k + 1 = w.driver.actor.length
  /-- 渡していない変化があれば、最後の状態はまだ `apply` されていない -/
  inOrder : w.driver.actor.Sublist
    (if sig.due w.driver.signal then history.dropLast else history)

/-- 動き出した driver は、機械の初めの状態を持つ。 -/
theorem keeping_new (state : MachineState) : Keeping [state] (ActorWorld.new sig state) := by
  obtain ⟨hvalue, hdue, _⟩ := sig.start_spec state
  refine ⟨following_new sig state, ?_, fun k hk => (by cases hk), List.nil_sublist _⟩
  show some state = some (sig.value (sig.start state))
  rw [hvalue]

/-- future が無ければ、`apply` はどれも終わっている。 -/
theorem finished_of_none {d : ActorDriver sig} (h : d.future = none) : finished d = d.actor := by
  unfold finished
  rw [h]

variable {history : List MachineState}

/-- `apply` されたのは、行い終えたものと、高々一つの途中のものである。 -/
theorem Keeping.split (h : Keeping history w) :
    ∃ pending, w.driver.actor = finished w.driver ++ pending ∧ pending.length ≤ 1 := by
  cases hfuture : w.driver.future with
  | none =>
    rw [finished_of_none hfuture]
    exact ⟨[], (List.append_nil _).symm, Nat.zero_le 1⟩
  | some k =>
    have hlen := h.latest k hfuture
    have hne : w.driver.actor ≠ [] := List.ne_nil_of_length_pos (by omega)
    have hdropped : finished w.driver = w.driver.actor.dropLast := by
      unfold finished
      rw [hfuture]
    rw [hdropped]
    exact ⟨[w.driver.actor.getLast hne], (List.dropLast_append_getLast hne).symm, Nat.le_refl 1⟩

/-- `apply` されたのは、機械が通った状態のいくつかで、順序は変わらない。 -/
theorem Keeping.sublist (h : Keeping history w) : w.driver.actor.Sublist history := by
  refine h.inOrder.trans ?_
  split
  · exact List.dropLast_sublist _
  · exact List.Sublist.refl _

/-- 機械の状態が変わる。 -/
theorem Keeping.set (h : Keeping history w) {state : MachineState}
    (hstep : w.step (.set state) = some w') :
    Keeping (history ++ [state]) w' ∧ finished w'.driver = finished w.driver := by
  have hfollowing := following_step h.following hstep
  cases hstep
  obtain ⟨hvalue, _, hdue⟩ := sig.set_spec w.driver.signal state
  refine ⟨⟨hfollowing, ?_, h.latest, ?_⟩, rfl⟩
  · show (history ++ [state]).getLast? = some (sig.value (sig.set w.driver.signal state))
    rw [hvalue, List.getLast?_concat]
  · show w.driver.actor.Sublist (if sig.due (sig.set w.driver.signal state) then
      (history ++ [state]).dropLast else history ++ [state])
    rw [List.dropLast_concat]
    split
    · exact h.sublist
    · exact h.sublist.trans (List.sublist_append_left _ _)

/-- driver の一歩の後に、行い終えた状態に加わるもの。 -/
theorem Keeping.drive (h : Keeping history w) {m : ActorMove MachineState}
    (hset : ∀ state, m ≠ .set state) (hclose : m ≠ .close) (hstep : w.step m = some w') :
    Keeping history w' ∧ finished w'.driver = finished w.driver ++
      (if m = .future true then w.driver.future.bind (w.driver.actor[·]?) else none).toList := by
  have hfollowing := following_step h.following hstep
  have hdrives := drives_of_step h.following hset hclose hstep
  obtain ⟨⟨signal, actor, future⟩, pc, trace⟩ := w
  obtain ⟨⟨signal', actor', future'⟩, pc', trace'⟩ := w'
  have hvalue := h.value
  have hlatest := h.latest
  have hinOrder := h.inOrder
  dsimp only at hdrives hvalue hlatest hinOrder ⊢
  cases hdrives with
  | idle _ hsame hdue hfuture =>
    refine ⟨⟨hfollowing, ?_, hlatest, ?_⟩, ?_⟩
    · rw [hvalue, hsame]
    · dsimp only
      rw [hdue]
      exact hinOrder
    · split
      · next hm =>
        have hnone : future = none := hfuture hm
        subst hnone
        exact (List.append_nil _).symm
      · exact (List.append_nil _).symm
  | finished k hm hfuture =>
    refine ⟨⟨hfollowing, hvalue, fun j hj => (by cases hj), hinOrder⟩, ?_⟩
    -- 終わるのは最後の `apply` の future である
    have hlen := hlatest k hfuture
    rcases List.eq_nil_or_concat actor with rfl | ⟨before, last, rfl⟩
    · cases hlen
    · rw [List.concat_eq_append] at hlen ⊢
      rw [List.length_append, List.length_singleton, Nat.add_right_cancel_iff] at hlen
      subst hlen hfuture
      rw [if_pos hm]
      simp [finished]
  | handed _ hsame hdue hdue' hfuture hm =>
    refine ⟨⟨hfollowing, ?_, fun j hj => ?_, ?_⟩, ?_⟩
    · rw [hvalue, hsame]
    · cases hj
      simp
    · dsimp only
      rw [hdue', if_neg Bool.false_ne_true]
      rw [hdue, if_pos rfl] at hinOrder
      rcases List.eq_nil_or_concat history with rfl | ⟨before, last, rfl⟩
      · cases hvalue
      · rw [List.concat_eq_append, List.getLast?_concat, Option.some.injEq] at hvalue
        rw [List.concat_eq_append] at hinOrder ⊢
        rw [List.dropLast_concat] at hinOrder
        rw [hvalue]
        exact hinOrder.append_right _
    · subst hfuture
      rw [if_neg (by rw [hm]; simp)]
      simp [finished]

/-! ## MQTT の task -/

def succeeded : Except ConnectionError Unit → Bool
  | .ok _ => true
  | .error _ => false

/-- 結果の列 `pre` の次がこれでも、task は続く。`Io` は、前の `Io` との間に成功があればよい。 -/
def Survivable (pre : List (Except ConnectionError Unit)) : Except ConnectionError Unit → Prop
  | .ok _ | .error .timeout => True
  | .error .io => .error .io ∉ since succeeded pre
  | .error .cancel | .error .streamDone | .error .requestsDone | .error .other => False

def Looping (results : List (Except ConnectionError Unit)) : EventLoop → Prop
  | .running fault => Orderly Survivable results ∧
      (fault = true ↔ .error .io ∈ since succeeded results)
  | .stopped => ¬ Orderly Survivable results

/-- MQTT の task が続くのは、得た結果がどれも続けてよいものであるとき、そのときに限る。 -/
theorem Looping.isRunning_iff {loop : EventLoop} {results : List (Except ConnectionError Unit)}
    (h : Looping results loop) : loop.isRunning = true ↔ Orderly Survivable results := by
  cases loop with
  | running fault => exact ⟨fun _ => h.1, fun _ => rfl⟩
  | stopped => exact ⟨fun hrun => (by cases hrun), fun horderly => absurd horderly h⟩

/-- 結果を一つ扱っても、task の続き方と結果の列との対応は保たれる。 -/
theorem Looping.handle {loop : EventLoop} {results : List (Except ConnectionError Unit)}
    (h : Looping results loop) (result : Except ConnectionError Unit) :
    Looping (results ++ [result]) (loop.handle result) := by
  have hbad : ∀ result, ¬ Survivable results result →
      ¬ Orderly Survivable (results ++ [result]) := fun _ hnot horderly =>
    hnot (orderly_append_singleton_iff.mp horderly).2
  cases loop with
  | stopped => exact fun horderly => h (orderly_append_singleton_iff.mp horderly).1
  | running fault =>
    obtain ⟨horderly, hfault⟩ := h
    cases result with
    | ok _ =>
      refine ⟨orderly_append_singleton horderly trivial, ?_⟩
      rw [since_append_singleton]
      simp [succeeded]
    | error error =>
      cases error with
      | timeout =>
        refine ⟨orderly_append_singleton horderly trivial, ?_⟩
        rw [since_append_singleton, hfault]
        simp [succeeded]
      | io =>
        cases fault with
        | true => exact hbad _ fun hfresh => hfresh (hfault.mp rfl)
        | false =>
          have hfresh : Except.error .io ∉ since succeeded results := fun hmem =>
            Bool.false_ne_true (hfault.mpr hmem)
          refine ⟨orderly_append_singleton horderly hfresh, ?_⟩
          rw [since_append_singleton]
          simp [succeeded]
      | cancel => exact hbad _ id
      | streamDone => exact hbad _ id
      | requestsDone => exact hbad _ id
      | other => exact hbad _ id

/-! ## すべての actor -/

/-- 動き出してから保たれること。 -/
structure Parked (wired : List Wired) (park : Park sig) : Prop where
  wired : park.drivers.map Driven.wired = wired
  current : ∀ id, (park.history id).getLast? = some (park.machines id)
  keeping : ∀ d ∈ park.drivers, Keeping (park.history d.wired.machine.id) d.world
  commands : ∀ d ∈ park.drivers,
    park.commands d.wired.name = (finished d.world.driver).map d.wired.actor.apply
  looping : Looping park.results park.eventLoop
  polls : ∀ e ∈ park.issued, e.polls ≤ park.results.length
  sent : ∀ e ∈ park.issued, e.sent = true ↔
    e.command.isPublish = false ∨ Orderly Survivable (park.results.take e.polls)

variable {publish : Publish} {wired : List Wired} {park park' : Park sig}

/-- 動き出した直後は、どの対応も成り立つ。 -/
theorem parked_start (sig : Signals MachineState) (machines : String → MachineState)
    (wired : List Wired) : Parked wired (Park.start sig machines wired) where
  wired := by
    show (wired.map _).map Driven.wired = wired
    rw [List.map_map]
    exact List.map_id _
  current _ := rfl
  keeping d hd := by
    obtain ⟨w, _, rfl⟩ := List.mem_map.mp hd
    exact keeping_new _
  commands d hd := by
    obtain ⟨w, _, rfl⟩ := List.mem_map.mp hd
    rfl
  looping := by
    refine ⟨orderly_nil, ?_⟩
    show false = true ↔ _ ∈ since succeeded []
    simp [since]
  polls e he := by cases he
  sent e he := by cases he

/-- 知らせが来ても、actor の繋がり方は変わらない。 -/
theorem notify_wired (machine : String) (state : MachineState) (d : Driven sig) :
    (d.notify machine state).wired = d.wired := by
  unfold Driven.notify
  split
  · rfl
  · rfl

/-- 機械の状態が変わっても、対応は保たれる。 -/
theorem Parked.set (h : Parked wired park) (machine : String) (state : MachineState)
    (hstep : park.step publish (.set machine state) = some park') : Parked wired park' := by
  cases hstep
  have hnotify : ∀ d ∈ park.drivers,
      Keeping (Function.update park.history machine (park.history machine ++ [state])
        d.wired.machine.id) (d.notify machine state).world ∧
      finished (d.notify machine state).world.driver = finished d.world.driver := by
    intro d hd
    unfold Driven.notify
    split
    · next hid =>
      subst hid
      rw [Function.update_self]
      exact (h.keeping d hd).set rfl
    · next hid =>
      rw [Function.update_of_ne hid]
      exact ⟨h.keeping d hd, rfl⟩
  refine ⟨?_, fun id => ?_, fun d hd => ?_, fun d hd => ?_, h.looping, h.polls, h.sent⟩
  · rw [← h.wired]
    show (park.drivers.map (Driven.notify machine state)).map Driven.wired = _
    rw [List.map_map]
    exact List.map_congr_left fun d _ => notify_wired machine state d
  · show (Function.update park.history machine _ id).getLast? =
      some (Function.update park.machines machine state id)
    by_cases hid : id = machine
    · subst hid
      rw [Function.update_self, Function.update_self, List.getLast?_concat]
    · rw [Function.update_of_ne hid, Function.update_of_ne hid]
      exact h.current id
  · obtain ⟨d, hmem, rfl⟩ := List.mem_map.mp hd
    rw [notify_wired]
    exact (hnotify d hmem).1
  · obtain ⟨d, hmem, rfl⟩ := List.mem_map.mp hd
    rw [notify_wired, (hnotify d hmem).2]
    exact h.commands d hmem

/-- `n` 番目を置き換えても、ほかの driver は名前が違う。 -/
theorem mem_set_drivers {drivers : List (Driven sig)} {n : Nat} {d d' e : Driven sig}
    (hnames : (drivers.map fun d => d.wired.name).Nodup) (hget : drivers[n]? = some d)
    (he : e ∈ drivers.set n d') : e = d' ∨ e ∈ drivers ∧ e.wired.name ≠ d.wired.name := by
  obtain ⟨i, hi⟩ := List.mem_iff_getElem?.mp he
  rw [List.getElem?_set] at hi
  split at hi
  · split at hi
    · exact Or.inl (Option.some.inj hi).symm
    · cases hi
  · next hne =>
    refine Or.inr ⟨List.mem_of_getElem? hi, fun heq => hne ?_⟩
    have hlt : n < (drivers.map fun d => d.wired.name).length := by
      rw [List.length_map]
      exact (List.getElem?_eq_some_iff.mp hget).1
    refine (List.getElem?_inj hlt hnames).mp ?_
    rw [List.getElem?_map, List.getElem?_map, hget, hi]
    exact congrArg some heq.symm

/-- 終わる future の行うことは、最後に `apply` された状態についてのものである。 -/
theorem finishes_eq (d : Driven sig) (m : ActorMove MachineState) :
    d.finishes m = (if m = .future true then
      d.world.driver.future.bind (d.world.driver.actor[·]?) else none).map d.wired.actor.apply := by
  cases m with
  | future ready =>
    cases ready with
    | false => rfl
    | true =>
      rw [if_pos rfl]
      show d.world.driver.future.bind _ = _
      cases d.world.driver.future <;> rfl
  | _ => rfl

/-- `publish` が channel の通りに働くなら、受け取られるのは task が動いているときである。 -/
theorem issue_sent (hpublish : publish.ByChannel) (park : Park sig) (d : Driven sig)
    (command : Command) :
    (park.issue publish d command).sent = (!command.isPublish || park.eventLoop.isRunning) := by
  cases command with
  | publish topic payload => exact hpublish _ _ _
  | nothing | exec cmd args => rfl

/-- driver の歩の後も、対応は保たれる。 -/
theorem Parked.drive (hpublish : publish.ByChannel) (hnames : (wired.map Wired.name).Nodup)
    (h : Parked wired park) (n : Nat) (m : ActorMove MachineState)
    (hstep : park.step publish (.drive n m) = some park') : Parked wired park' := by
  rw [← h.wired, List.map_map] at hnames
  simp only [Park.step] at hstep
  split at hstep
  · cases hstep
  · next d hget =>
    unfold Park.drive at hstep
    split at hstep
    · cases hstep
    · cases hstep
    · next hset hclose =>
      obtain ⟨world, hworld, rfl⟩ := Option.map_eq_some_iff.mp hstep
      have hmem : d ∈ park.drivers := List.mem_of_getElem? hget
      obtain ⟨hkeeping, hfinished⟩ := (h.keeping d hmem).drive hset hclose hworld
      have hissued : ∀ e ∈ (d.finishes m).toList.map (park.issue publish d),
          e.actor = d.wired.name ∧ e.polls = park.results.length ∧
            e.sent = (!e.command.isPublish || park.eventLoop.isRunning) := by
        intro e he
        obtain ⟨command, _, rfl⟩ := List.mem_map.mp he
        exact ⟨rfl, rfl, issue_sent hpublish park d command⟩
      refine ⟨?_, h.current, fun e he => ?_, fun e he => ?_, h.looping, fun e he => ?_,
        fun e he => ?_⟩
      · obtain ⟨hn, hd⟩ := List.getElem?_eq_some_iff.mp hget
        rw [← h.wired]
        show (park.drivers.set n _).map Driven.wired = _
        rw [List.map_set]
        show (park.drivers.map Driven.wired).set n d.wired = _
        subst hd
        rw [← List.getElem_map Driven.wired (h := by simpa using hn), List.set_getElem_self]
      · rcases mem_set_drivers hnames hget he with rfl | ⟨hold, _⟩
        · exact hkeeping
        · exact h.keeping e hold
      · show ((park.issued ++ _).filter (·.actor = e.wired.name)).map Issued.command = _
        rw [List.filter_append, List.map_append]
        rcases mem_set_drivers hnames hget he with rfl | ⟨hold, hne⟩
        · have hall : ((d.finishes m).toList.map (park.issue publish d)).filter
              (·.actor = d.wired.name) = (d.finishes m).toList.map (park.issue publish d) :=
            List.filter_eq_self.mpr fun e he => by simpa using (hissued e he).1
          show (park.issued.filter (·.actor = d.wired.name)).map Issued.command ++
            (List.filter (·.actor = d.wired.name) _).map Issued.command =
              (finished world.driver).map d.wired.actor.apply
          rw [hall, hfinished, List.map_append, List.map_map, finishes_eq, Option.toList_map]
          have hold := h.commands d hmem
          unfold Park.commands at hold
          rw [hold]
          congr 1
          exact List.map_id _
        · have hnone : ((d.finishes m).toList.map (park.issue publish d)).filter
              (·.actor = e.wired.name) = [] := List.filter_eq_nil_iff.mpr fun e' he' => by
            simpa [(hissued e' he').1] using hne.symm
          rw [hnone, List.map_nil, List.append_nil]
          exact h.commands e hold
      · rcases List.mem_append.mp he with he | he
        · exact h.polls e he
        · exact (hissued e he).2.1.le
      · rcases List.mem_append.mp he with he | he
        · exact h.sent e he
        · obtain ⟨_, hpolls, hsent⟩ := hissued e he
          rw [hsent, hpolls]
          show _ ↔ _ ∨ Orderly Survivable (park.results.take park.results.length)
          rw [List.take_length, ← h.looping.isRunning_iff]
          simp

/-- MQTT の task が結果を一つ得ても、対応は保たれる。 -/
theorem Parked.mqtt (h : Parked wired park) (result : Except ConnectionError Unit)
    (hstep : park.step publish (.mqtt result) = some park') : Parked wired park' := by
  simp only [Park.step] at hstep
  split at hstep
  · cases hstep
    refine ⟨h.wired, h.current, h.keeping, h.commands, h.looping.handle result, fun e he => ?_,
      fun e he => ?_⟩
    · show e.polls ≤ (park.results ++ [result]).length
      rw [List.length_append]
      exact (h.polls e he).trans (Nat.le_add_right _ _)
    · show _ ↔ _ ∨ Orderly Survivable ((park.results ++ [result]).take e.polls)
      rw [List.take_append_of_le_length (h.polls e he)]
      exact h.sent e he
  · cases hstep

/-- どの順序で進んでも、対応は保たれる。 -/
theorem parked_run (hpublish : publish.ByChannel) (hnames : (wired.map Wired.name).Nodup)
    {machines : String → MachineState} {events : List ParkEvent}
    (hrun : (Park.start sig machines wired).run publish events = some park) :
    Parked wired park := by
  refine run_invariant (fun park event park' h hstep => ?_) (parked_start sig machines wired) hrun
  cases event with
  | set machine state => exact h.set machine state hstep
  | drive n m => exact h.drive hpublish hnames n m hstep
  | mqtt result => exact h.mqtt result hstep

/--
**設定に従って動き出した actor は、状態の変化と poll のどんな順序でも、自分の機械が通った状態のいくつかを
その順に一度ずつ行う。静かになった actor が最後に行ったのは、機械のいまの状態についてのものである。**

行い終えていない `apply` は高々一つである。MQTT への `publish` が受け取られるのは、そこまでに MQTT の task が
得た結果のどれもが、task の続くものであるとき、そのときに限る。受け取られなくても actor は先へ進む。
-/
theorem started_actors_follow (sig : Signals MachineState) (publish : Publish)
    (hpublish : publish.ByChannel) (url : Option Url)
    (first : Except ConnectionError Unit) (actors : Modules) (connections : List (String × String))
    (resources : ResourcesHandle) (options : MqttOptions) (wired : List Wired)
    (hload : load url first actors connections resources = .ok (options, wired))
    (machines : String → MachineState) (events : List ParkEvent) (park : Park sig)
    (hrun : (Park.start sig machines wired).run publish events = some park) :
    park.drivers.map Driven.wired = wired ∧
    (∀ d ∈ park.drivers, ∃ done pending, appliedValues d.world.trace = done ++ pending ∧
      pending.length ≤ 1 ∧ (done ++ pending).Sublist (park.history d.wired.machine.id) ∧
      park.commands d.wired.name = done.map d.wired.actor.apply ∧
      (Quiet d.world.trace → (park.commands d.wired.name).getLast? =
        some (d.wired.actor.apply (park.machines d.wired.machine.id)))) ∧
    ∀ e ∈ park.issued, e.sent = true ↔
      e.command.isPublish = false ∨ Orderly Survivable (park.results.take e.polls) := by
  have hnames : (wired.map Wired.name).Nodup := by
    obtain ⟨_, _, _, _, rfl⟩ := load_eq_ok.mp hload
    exact (startActors_names actors.nodup _).nodup actors.nodup
  have h := parked_run hpublish hnames hrun
  refine ⟨h.wired, fun d hd => ?_, h.sent⟩
  have hkeeping := h.keeping d hd
  have happlied := hkeeping.following.logged.applied
  obtain ⟨pending, hsplit, hlen⟩ := hkeeping.split
  refine ⟨finished d.world.driver, pending, happlied.trans hsplit, hlen, hsplit ▸ hkeeping.sublist,
    h.commands d hd, fun hquiet => ?_⟩
  obtain ⟨hfuture, hdue⟩ := hkeeping.following.quiet hquiet
  have hvalue := hkeeping.value
  rw [h.current, Option.some.injEq] at hvalue
  rw [h.commands d hd, finished_of_none hfuture, List.getLast?_map,
    hkeeping.following.caught hdue, hvalue]
  rfl

/-- `relay` が一度行った後で MQTT の task が終わり、それから `alice` が `mill` を使い始める。 -/
def brokerLost : List ParkEvent :=
  [.drive 0 .poll, .drive 0 (.future true), .drive 0 .signal, .drive 0 (.future true),
    .drive 0 .signal, .mqtt (.error .io), .mqtt (.error .timeout), .mqtt (.error .io),
    .set "mill" ⟨.inUse ⟨"alice"⟩, none⟩, .drive 0 .poll, .drive 0 (.future true),
    .drive 0 .signal, .drive 0 (.future true), .drive 0 .signal]

theorem started_actors_follow_brokerLost :
    ∃ options wired, load (some brokerUrl) (.ok ()) twoActors relayMoved workshop =
      .ok (options, wired) ∧
    ∃ park, (Park.start (Signals.cloned MachineState) (fun _ => .free none) wired).run
      (fun running _ _ => running) brokerLost = some park ∧
      park.issued = [⟨"relay", .publish "shellies/relay/relay/0/command" "off", 0, true⟩,
        ⟨"relay", .publish "shellies/relay/relay/0/command" "on", 3, false⟩] ∧
      ¬ Orderly Survivable (park.results.take 3) := by
  refine ⟨_, _, rfl, _, rfl, rfl, fun horderly => ?_⟩
  have hsent := (started_actors_follow (Signals.cloned MachineState) (fun running _ _ => running)
    (fun _ _ _ => rfl) (some brokerUrl) (.ok ()) twoActors relayMoved workshop _ _ rfl
    (fun _ => .free none) brokerLost _ rfl).2.2
  have hlast := hsent ⟨"relay", .publish "shellies/relay/relay/0/command" "on", 3, false⟩
    (List.mem_cons_of_mem _ (List.mem_singleton_self _))
  exact Bool.false_ne_true (hlast.mpr (Or.inr horderly))

end FabAccess.Actors
