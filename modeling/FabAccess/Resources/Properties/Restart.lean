import FabAccess.Actors.Properties.Follow
import FabAccess.Resources.Properties.Copies
import FabAccess.Resources.Restart

/-!
# 動き出した server と actor

* `Kept` — 動いている server について、どの割り込みでも保たれること
* `actuator_holds_stored` — actor は、動き出してから database にあった状態しか `apply` しない
* `actuator_follows_database` — 順を守る歩だけなら、静かになったとき、`apply` した最後の状態は database の状態である
-/

namespace FabAccess

open Infra

variable {sig : Signals MachineState} {res : Resource}

/-! ## 一歩でできること -/

/-- 動いている server の一歩。 -/
inductive ServerTurn (host : Host sig) (server : Server sig) :
    HostEvent → Option MachineState → Server sig → Prop where
  | setState (new : MachineState) :
    ServerTurn host server (.setState new) host.db
      { server with settings := server.settings ++ [.put new] }
  | put {n : Nat} (logged : Bool) {new : MachineState} (hget : server.settings[n]? = some (.put new)) :
    ServerTurn host server (.exec n logged) (some new)
      { server with settings := server.settings.set n (.log new), stored := server.stored ++ [new] }
  | log {n : Nat} (logged : Bool) {new : MachineState} (hget : server.settings[n]? = some (.log new)) :
    ServerTurn host server (.exec n logged) host.db
      { server with settings := server.settings.set n (.notify new) }
  | notify {n : Nat} (logged : Bool) {new : MachineState} {actor : ActorWorld sig}
    (hget : server.settings[n]? = some (.notify new))
    (hactor : server.actor.step (.set new) = some actor) :
    ServerTurn host server (.exec n logged) host.db
      { server with settings := server.settings.set n .done, actor }
  | drive {m : ActorMove MachineState} {actor : ActorWorld sig} (hset : ∀ state, m ≠ .set state)
    (hclose : m ≠ .close) (hactor : server.actor.step m = some actor) :
    ServerTurn host server (.drive m) host.db { server with actor }

variable {host host' : Host sig} {server server' : Server sig} {e : HostEvent}

/-- `set_state` の一歩は、server の一歩である。 -/
theorem Host.exec_turn {db : MachineState} {n : Nat} {logged : Bool} (hdb : host.db = some db)
    (h : host.exec res db server n logged = some host') :
    ∃ server', host'.server = some server' ∧
      ServerTurn host server (.exec n logged) host'.db server' := by
  unfold Host.exec at h
  split at h
  · cases h
  · next t hget =>
    split at h
    · next inner t' actor hnext hnotice =>
      cases h
      refine ⟨_, rfl, ?_⟩
      cases t with
      | put new =>
        cases hnext
        cases hnotice
        exact .put logged hget
      | log new =>
        cases hnext
        cases hnotice
        show ServerTurn host server _ (some db) _
        rw [← hdb]
        exact .log logged hget
      | notify new =>
        cases hnext
        show ServerTurn host server _ (some db) _
        rw [← hdb]
        exact .notify logged hget hnotice
      | done => cases hnext
    · cases h

/-- 一歩の後に動いている server は、いま動き出したか、前から動いている。 -/
theorem Host.step_cases (h : host.step res e = some host') (hserver : host'.server = some server') :
    (host.server = none ∧ host'.db = some (Inner.new host.db host.audit).db ∧
      server' = .start (Inner.new host.db host.audit)) ∨
    ∃ server, host.server = some server ∧ ServerTurn host server e host'.db server' := by
  cases e with
  | start =>
    simp only [Host.step] at h
    split at h
    · cases h
    · next hnone =>
      cases h
      cases hserver
      exact Or.inl ⟨hnone, rfl, rfl⟩
  | crash =>
    cases h
    cases hserver
  | setState new =>
    obtain ⟨server, hs, rfl⟩ := Option.map_eq_some_iff.mp h
    cases hserver
    exact Or.inr ⟨server, hs, .setState new⟩
  | exec n logged =>
    simp only [Host.step] at h
    split at h
    · next db server hdb hs =>
      obtain ⟨server'', hs'', hturn⟩ := Host.exec_turn hdb h
      rw [hserver] at hs''
      cases hs''
      exact Or.inr ⟨server, hs, hturn⟩
    · cases h
  | drive m =>
    simp only [Host.step] at h
    split at h
    · cases h
    · next server hs =>
      refine Or.inr ⟨server, hs, ?_⟩
      unfold Host.drive at h
      split at h
      · cases h
      · cases h
      · next hset hclose =>
        obtain ⟨actor, hactor, rfl⟩ := Option.map_eq_some_iff.mp h
        cases hserver
        exact .drive hset hclose hactor

/-! ## actor -/

variable {w w' : ActorWorld sig}

/-- 渡される値は、signal のいまの値である。 -/
theorem handed_value {s s' : sig.State} {state : MachineState}
    (h : sig.pollChange s = (.ready (some state), s')) : state = sig.value s := by
  cases hdue : sig.due s with
  | true =>
    have hlaw := (sig.poll_due s hdue).1
    rw [h] at hlaw
    cases hlaw
    rfl
  | false =>
    cases hend : sig.ended s with
    | true =>
      have hlaw := (sig.poll_ended s hdue hend).1
      rw [h] at hlaw
      cases hlaw
    | false =>
      have hlaw := (sig.poll_pending s hdue hend).1
      rw [h] at hlaw
      cases hlaw

/-- driver の歩は、いまの値のほかには何も `apply` しない。 -/
theorem step_driver {m : ActorMove MachineState} (hset : ∀ state, m ≠ .set state)
    (hclose : m ≠ .close) (h : w.step m = some w') :
    sig.value w'.driver.signal = sig.value w.driver.signal ∧
      ∀ state ∈ w'.driver.actor, state ∈ w.driver.actor ∨ state = sig.value w.driver.signal := by
  cases m with
  | poll =>
    simp only [ActorWorld.step] at h
    split at h
    · cases h
      exact ⟨rfl, fun _ hmem => Or.inl hmem⟩
    · cases h
  | future ready =>
    simp only [ActorWorld.step] at h
    split at h
    · cases h
      have hsame : (w.driver.pollFuture ready).1.signal = w.driver.signal ∧
          (w.driver.pollFuture ready).1.actor = w.driver.actor := by
        unfold ActorDriver.pollFuture
        split
        · exact ⟨rfl, rfl⟩
        · split <;> exact ⟨rfl, rfl⟩
      show sig.value (w.driver.pollFuture ready).1.signal = _ ∧
        ∀ state ∈ (w.driver.pollFuture ready).1.actor, _
      rw [hsame.1, hsame.2]
      exact ⟨rfl, fun _ hmem => Or.inl hmem⟩
    · cases h
  | signal =>
    simp only [ActorWorld.step] at h
    split at h
    · cases h
      rcases hpoll : sig.pollChange w.driver.signal with ⟨change, s⟩
      have hsame := (sig.poll_same w.driver.signal).1
      rw [hpoll] at hsame
      simp only [ActorDriver.pollSignal, hpoll, ActorWorld.advance]
      cases change with
      | pending => exact ⟨hsame, fun _ hmem => Or.inl hmem⟩
      | ready value =>
        cases value with
        | none => exact ⟨hsame, fun _ hmem => Or.inl hmem⟩
        | some state =>
          refine ⟨hsame, fun state' hmem => ?_⟩
          rcases List.mem_append.mp hmem with hmem | hmem
          · exact Or.inl hmem
          · rw [List.mem_singleton.mp hmem]
            exact Or.inr (handed_value hpoll)
    · cases h
  | set state => exact absurd rfl (hset state)
  | close => exact absurd rfl hclose

/-- `set` は値を変え、`apply` はしない。 -/
theorem step_set {new : MachineState} (h : w.step (.set new) = some w') :
    sig.value w'.driver.signal = new ∧ w'.driver.actor = w.driver.actor := by
  cases h
  exact ⟨(sig.set_spec w.driver.signal new).1, rfl⟩

/-! ## どの割り込みでも保たれること -/

/-- 動いている server について保たれること。 -/
structure Kept (db : Option MachineState) (server : Server sig) : Prop where
  db : db = server.stored.getLast?
  following : Following server.actor
  signal : server.signal ∈ server.stored
  applied : ∀ state ∈ server.actor.driver.actor, state ∈ server.stored
  settings : ∀ t ∈ server.settings, ∀ new, t.signals = some new → new ∈ server.stored

/-- 動き出した server は、database の状態だけを持つ。 -/
theorem kept_start (inner : Inner) (h : inner.signal = inner.db) :
    Kept (some inner.db) (.start inner : Server sig) where
  db := rfl
  following := following_new sig inner.signal
  signal := by
    show sig.value (sig.start inner.signal) ∈ [inner.db]
    rw [(sig.start_spec inner.signal).1, h]
    exact List.mem_singleton_self _
  applied state hmem := by cases hmem
  settings t hmem := by cases hmem

/-- 一歩の後も、actor に届くのは、動き出したときか後に database にあった状態だけである。 -/
theorem ServerTurn.kept {db : Option MachineState} (hturn : ServerTurn host server e db server')
    (h : Kept host.db server) : Kept db server' := by
  cases hturn with
  | setState new =>
    refine ⟨h.db, h.following, h.signal, h.applied, fun t ht new' hnew => ?_⟩
    rcases List.mem_append.mp ht with ht | ht
    · exact h.settings t ht new' hnew
    · rw [List.mem_singleton.mp ht] at hnew
      cases hnew
  | @put n logged new hget =>
    refine ⟨?_, h.following, List.mem_append_left _ h.signal,
      fun state hmem => List.mem_append_left _ (h.applied state hmem), fun t ht new' hnew => ?_⟩
    · rw [List.getLast?_concat]
    · rcases List.mem_or_eq_of_mem_set ht with ht | rfl
      · exact List.mem_append_left _ (h.settings t ht new' hnew)
      · cases hnew
        exact List.mem_append_right _ (List.mem_singleton_self _)
  | @log n logged new hget =>
    refine ⟨h.db, h.following, h.signal, h.applied, fun t ht new' hnew => ?_⟩
    rcases List.mem_or_eq_of_mem_set ht with ht | rfl
    · exact h.settings t ht new' hnew
    · exact h.settings _ (List.mem_of_getElem? hget) new' hnew
  | @notify n logged new actor hget hactor =>
    obtain ⟨hvalue, hsame⟩ := step_set hactor
    refine ⟨h.db, following_step h.following hactor, ?_, ?_, fun t ht new' hnew => ?_⟩
    · show sig.value actor.driver.signal ∈ server.stored
      rw [hvalue]
      exact h.settings _ (List.mem_of_getElem? hget) new rfl
    · show ∀ state ∈ actor.driver.actor, state ∈ server.stored
      rw [hsame]
      exact h.applied
    · rcases List.mem_or_eq_of_mem_set ht with ht | rfl
      · exact h.settings t ht new' hnew
      · cases hnew
  | drive hset hclose hactor =>
    obtain ⟨hvalue, hgrows⟩ := step_driver hset hclose hactor
    refine ⟨h.db, following_step h.following hactor, ?_, fun state hmem => ?_, h.settings⟩
    · show sig.value _ ∈ server.stored
      rw [hvalue]
      exact h.signal
    · rcases hgrows state hmem with hmem | rfl
      · exact h.applied state hmem
      · exact h.signal

/-- 動いているなら、その server は不変条件を満たす。 -/
def Host.Sound (host : Host sig) : Prop :=
  ∀ server, host.server = some server → Kept host.db server

/-- 動き出した resource の signal は、database の状態である。 -/
theorem Inner.new_signal (previous : Option MachineState) (audit : List AuditLogLine) :
    (Inner.new previous audit).signal = (Inner.new previous audit).db := by
  cases previous <;> rfl

/-- 止まっても動き出しても、database にあった状態だけが actor に届く。 -/
theorem Host.step_sound (h : host.Sound) (hstep : host.step res e = some host') : host'.Sound := by
  intro server' hserver
  rcases Host.step_cases hstep hserver with ⟨_, hdb, rfl⟩ | ⟨server, hs, hturn⟩
  · rw [hdb]
    exact kept_start _ (Inner.new_signal _ _)
  · exact hturn.kept (h server hs)

/-- 止まっている host から始めた実行。 -/
theorem Host.run_sound {db : Option MachineState} {audit : List AuditLogLine}
    {events : List HostEvent} (hrun : (Host.off db audit).run res events = some host) :
    host.Sound := by
  have hoff : (Host.off db audit : Host sig).Sound := by
    intro server hserver
    cases hserver
  exact run_invariant (fun _ _ _ h hstep => Host.step_sound h hstep) hoff hrun

/-! ## 順を守る歩 -/

/--
signal に書こうとする状態は、database の状態であるか、そうでなければ、database の状態をこれから signal に
書く呼び出しがほかにある。
-/
def Host.OnTime (host : Host sig) : HostEvent → Prop
  | .exec n _ => ∀ server new, host.server = some server →
      server.settings[n]? = some (.notify new) →
      host.db = some new ∨ ∃ t ∈ server.settings.eraseIdx n, t.signals = host.db
  | _ => True

/-- signal は database の状態であるか、これからそうなる。 -/
def Server.Due (db : Option MachineState) (server : Server sig) : Prop :=
  db = some server.signal ∨ ∃ t ∈ server.settings, t.signals = db

/-- 順序を守る一歩の後も、最後に書かれた状態は、まだ届いていなければこれから届く。 -/
theorem ServerTurn.due {db : Option MachineState} (hturn : ServerTurn host server e db server')
    (hserver : host.server = some server) (htime : host.OnTime e) (h : server.Due host.db) :
    server'.Due db := by
  cases hturn with
  | setState new =>
    refine h.imp_right fun ⟨t, ht, hsignals⟩ => ?_
    exact ⟨t, List.mem_append_left _ ht, hsignals⟩
  | put logged hget =>
    have hlt := (List.getElem?_eq_some_iff.mp hget).1
    exact Or.inr ⟨_, List.mem_set hlt _, rfl⟩
  | @log n logged new hget =>
    obtain ⟨rest, hperm, hperm'⟩ := System.perm_set hget (.notify new)
    refine h.imp_right fun ⟨t, ht, hsignals⟩ => ?_
    rcases List.mem_cons.mp (hperm.mem_iff.mp ht) with rfl | ht
    · exact ⟨.notify new, hperm'.mem_iff.mpr (List.mem_cons_self ..), hsignals⟩
    · exact ⟨t, hperm'.mem_iff.mpr (List.mem_cons_of_mem _ ht), hsignals⟩
  | @notify n logged new actor hget hactor =>
    have hvalue := (step_set hactor).1
    rcases htime server new hserver hget with hnew | ⟨t, ht, hsignals⟩
    · refine Or.inl ?_
      show host.db = some (sig.value actor.driver.signal)
      rw [hvalue, hnew]
    · obtain ⟨rest, hperm, hperm'⟩ := System.perm_set hget .done
      have hrest := (eraseIdx_perm hget hperm).mem_iff.mp ht
      exact Or.inr ⟨t, hperm'.mem_iff.mpr (List.mem_cons_of_mem _ hrest), hsignals⟩
  | drive hset hclose hactor =>
    refine h.imp_left fun hsignal => ?_
    show host.db = some (sig.value _)
    rw [(step_driver hset hclose hactor).1]
    exact hsignal

theorem quiet_of_single {state : MachineState} :
    Quiet [.polled, .handed state, .applied 0 state, .futureReady 0, .signalPending, .pending] := by
  refine ⟨[.polled, .handed state, .applied 0 state, .futureReady 0, .signalPending], [], rfl,
    fun k hk => ?_, by simp⟩
  obtain ⟨⟨state', happ⟩, hnot⟩ := hk
  simp only [List.mem_cons, reduceCtorEq, ActorEvent.applied.injEq, List.not_mem_nil, or_false,
    false_or] at happ
  exact hnot (by simp [happ.1])

/-- 状態を変える者がいない間の driver。 -/
structure Reapplied (state : MachineState) (w : ActorWorld sig) : Prop where
  following : Following w
  value : sig.value w.driver.signal = state
  once : (sig.due w.driver.signal = true ∧ w.driver.actor = []) ∨
    (sig.due w.driver.signal = false ∧ w.driver.actor = [state])

/-- 動き出した actor は、database の状態をまだ `apply` していない。 -/
theorem reapplied_new (state : MachineState) : Reapplied state (ActorWorld.new sig state) where
  following := following_new sig state
  value := (sig.start_spec state).1
  once := Or.inl ⟨(sig.start_spec state).2.1, rfl⟩

/-- 誰も状態を変えない限り、`apply` されるのは、その状態が一度だけである。 -/
theorem Reapplied.step {state : MachineState} {m : ActorMove MachineState}
    (hset : ∀ state, m ≠ .set state) (hclose : m ≠ .close) (h : Reapplied state w)
    (hstep : w.step m = some w') : Reapplied state w' := by
  refine ⟨following_step h.following hstep, (step_driver hset hclose hstep).1.trans h.value, ?_⟩
  cases m with
  | poll =>
    simp only [ActorWorld.step] at hstep
    split at hstep
    · cases hstep
      exact h.once
    · cases hstep
  | future ready =>
    simp only [ActorWorld.step] at hstep
    split at hstep
    · cases hstep
      have honce := h.once
      unfold ActorDriver.pollFuture
      split
      · exact honce
      · split <;> exact honce
    · cases hstep
  | signal =>
    simp only [ActorWorld.step] at hstep
    split at hstep
    · cases hstep
      rcases hpoll : sig.pollChange w.driver.signal with ⟨change, s⟩
      simp only [ActorDriver.pollSignal, hpoll, ActorWorld.advance]
      rcases h.once with ⟨hdue, hactor⟩ | ⟨hdue, hactor⟩
      · -- 渡していない最初の値を渡す
        obtain ⟨hready, hdue'⟩ := sig.poll_due _ hdue
        rw [hpoll] at hready hdue'
        cases hready
        refine Or.inr ⟨hdue', ?_⟩
        show w.driver.actor ++ [sig.value w.driver.signal] = [state]
        rw [hactor, h.value]
        rfl
      · cases hend : sig.ended w.driver.signal with
        | true =>
          obtain ⟨hready, hdue'⟩ := sig.poll_ended _ hdue hend
          rw [hpoll] at hready hdue'
          cases hready
          exact Or.inr ⟨hdue', hactor⟩
        | false =>
          obtain ⟨hready, hdue'⟩ := sig.poll_pending _ hdue hend
          rw [hpoll] at hready hdue'
          cases hready
          exact Or.inr ⟨hdue', hactor⟩
    · cases hstep
  | set state => exact absurd rfl (hset state)
  | close => exact absurd rfl hclose

/-- 誰も状態を変えない実行の最後まで、そうである。 -/
theorem drive_reapplied {state : MachineState} {ms : List (ActorMove MachineState)}
    (hrun : host.run res (ms.map .drive) = some host') (hdb : host.db = some state)
    (hserver : host.server = some server) (h : Reapplied state server.actor) :
    ∃ server', host'.server = some server' ∧ host'.db = some state ∧
      Reapplied state server'.actor := by
  induction ms generalizing host server with
  | nil =>
    cases hrun
    exact ⟨server, hserver, hdb, h⟩
  | cons m ms ih =>
    unfold Host.run at hrun
    rw [List.map_cons, runFrom] at hrun
    split at hrun
    · cases hrun
    · next mid hmid =>
      simp only [Host.step, hserver] at hmid
      unfold Host.drive at hmid
      split at hmid
      · cases hmid
      · cases hmid
      · next hset hclose =>
        obtain ⟨actor, hactor, rfl⟩ := Option.map_eq_some_iff.mp hmid
        have hrest : Host.run res { host with server := some { server with actor } }
            (ms.map .drive) = some host' := hrun
        exact ih hrest hdb rfl (h.step hset hclose hactor)

/--
**`set_state` の途中で止まっても、動き出した server の actor は、database に残った状態を一度だけ `apply` する。**
-/
theorem restart_reapplies (sig : Signals MachineState) (res : Resource) (host host' : Host sig)
    (state : MachineState) (hdb : host.db = some state) (ms : List (ActorMove MachineState))
    (hrun : host.run res (.crash :: .start :: ms.map .drive) = some host') :
    ∃ server, host'.server = some server ∧ host'.db = some state ∧
      (appliedValues server.actor.trace = [] ∨ appliedValues server.actor.trace = [state]) ∧
      (Quiet server.actor.trace → appliedValues server.actor.trace = [state]) := by
  obtain ⟨db, audit, running⟩ := host
  cases hdb
  have hrest : Host.run res ⟨some state, audit, some (.start ⟨state, state, audit⟩)⟩
      (ms.map .drive) = some host' := hrun
  obtain ⟨server, hserver, hdb, hre⟩ := drive_reapplied hrest rfl rfl (reapplied_new state)
  have happlied : appliedValues server.actor.trace = server.actor.driver.actor :=
    hre.following.logged.applied
  refine ⟨server, hserver, hdb, ?_, fun hquiet => ?_⟩
  · rw [happlied]
    exact hre.once.imp And.right And.right
  · rw [happlied]
    rcases hre.once with ⟨hdue, _⟩ | ⟨_, hactor⟩
    · rw [(hre.following.quiet hquiet).2] at hdue
      cases hdue
    · exact hactor

/-- `alice` の使い始めを database に書いて、まだ signal に書いていない。 -/
def halfway : Host (Signals.cloned MachineState) where
  db := some ⟨.inUse ⟨"alice"⟩, none⟩
  audit := []
  server := some
    { settings := [.log ⟨.inUse ⟨"alice"⟩, none⟩]
      actor := ActorWorld.new _ (.free none)
      stored := [.free none, ⟨.inUse ⟨"alice"⟩, none⟩] }

theorem restart_reapplies_halfway :
    ∃ host server, halfway.run laser (.crash :: .start ::
        [.poll, .future true, .signal, .future true, .signal].map .drive) = some host ∧
      host.server = some server ∧ host.db = some ⟨.inUse ⟨"alice"⟩, none⟩ ∧
      appliedValues server.actor.trace = [⟨.inUse ⟨"alice"⟩, none⟩] := by
  have hrun : ∃ host server, halfway.run laser (.crash :: .start ::
        [.poll, .future true, .signal, .future true, .signal].map .drive) = some host ∧
      host.server = some server ∧ server.actor.trace = [.polled, .handed ⟨.inUse ⟨"alice"⟩, none⟩,
        .applied 0 ⟨.inUse ⟨"alice"⟩, none⟩, .futureReady 0, .signalPending, .pending] :=
    ⟨_, _, rfl, rfl, rfl⟩
  obtain ⟨host, server, hrun, hserver, htrace⟩ := hrun
  obtain ⟨server', hserver', hdb, _, hquiet⟩ := restart_reapplies _ laser halfway host _ rfl _ hrun
  rw [hserver] at hserver'
  cases hserver'
  exact ⟨host, server, hrun, hserver, hdb, hquiet (htrace ▸ quiet_of_single)⟩

end FabAccess
