import FabAccess.Actors.Loading
import FabAccess.Actors.Properties.Follow
import FabAccess.Infra.FiniteMap
import FabAccess.Resources.Properties.Ownership

/-!
# 動き出す actor

* `lastConnected` — actor が繋がる機械。ある機械に繋ぐ項のうち、最後のものである
* `startActors_eq` — `actor_map` から取り除きながら辿っても、どの actor も自分の項だけを見る
* `load_starts_exactly` — どんな設定についても、動き出す actor はちょうどこれだけである
-/

namespace FabAccess.Actors

open Infra

/-! ## `actor_map` -/

/-- `name` の最後の項のうち、あるもの。 -/
def lastConnected (resources : ResourcesHandle) (connections : List (String × String))
    (name : String) : Option Resource :=
  ((connections.filter (·.1 = name)).filterMap fun c => resources.getById c.2).getLast?

theorem lookup_actorMap (resources : ResourcesHandle) (connections : List (String × String))
    (name : String) :
    (actorMap resources connections).lookup name = lastConnected resources connections name := by
  unfold actorMap lastConnected
  rw [lookup_foldl_insert, Finmap.lookup_empty, Option.or_none, ← List.getLast?_map]
  congr 1
  induction connections with
  | nil => rfl
  | cons c connections ih =>
    by_cases hk : c.1 = name
    · rw [List.filter_cons_of_pos (by simpa using hk)]
      cases hv : resources.getById c.2 with
      | none =>
        simp only [List.filterMap_cons, hv, Option.map_none]
        exact ih
      | some resource =>
        simp only [List.filterMap_cons, hv, Option.map_some]
        rw [List.filter_cons_of_pos (by simpa using hk), List.map_cons, ih]
    · rw [List.filter_cons_of_neg (by simpa using hk), ← ih]
      cases hv : resources.getById c.2 with
      | none => simp only [List.filterMap_cons, hv, Option.map_none]
      | some resource =>
        simp only [List.filterMap_cons, hv, Option.map_some]
        rw [List.filter_cons_of_neg (by simpa using hk)]

/-! ## 動かす loop -/

/-- 一つの項が動かす actor。 -/
def startOne (map : Finmap (fun _ : String => Resource)) (entry : String × ModuleConfig) :
    Option Wired :=
  match map.lookup entry.1, ActorModule.loadSingle entry.1 entry.2 with
  | some machine, some actor => some ⟨entry.1, actor, machine⟩
  | _, _ => none

theorem startOne_eq_some {map : Finmap (fun _ : String => Resource)} {entry : String × ModuleConfig}
    {w : Wired} : startOne map entry = some w ↔ entry.1 = w.name ∧
      map.lookup entry.1 = some w.machine ∧ ActorModule.loadSingle entry.1 entry.2 = some w.actor := by
  obtain ⟨name, actor, machine⟩ := w
  unfold startOne
  split
  · next machine' actor' hmachine hactor =>
    rw [hmachine, hactor]
    simp only [Option.some.injEq, Wired.mk.injEq]
    tauto
  · next hnone =>
    constructor
    · intro h
      cases h
    · rintro ⟨_, hmachine, hactor⟩
      exact absurd hactor (hnone machine actor hmachine)

/-- 名前は重ならないので、取り除いた項はもう要らない。 -/
theorem startActors_eq {entries : List (String × ModuleConfig)}
    (hnodup : (entries.map Prod.fst).Nodup) (map : Finmap (fun _ : String => Resource)) :
    startActors entries map = entries.filterMap (startOne map) := by
  induction entries generalizing map with
  | nil => rfl
  | cons entry rest ih =>
    obtain ⟨name, cfg⟩ := entry
    rw [List.map_cons, List.nodup_cons] at hnodup
    obtain ⟨hfresh, hnodup⟩ := hnodup
    have herase : rest.filterMap (startOne (map.erase name)) = rest.filterMap (startOne map) := by
      refine List.filterMap_congr fun entry hmem => ?_
      have hne : entry.1 ≠ name := fun heq =>
        hfresh (List.mem_map.mpr ⟨entry, hmem, heq⟩)
      unfold startOne
      rw [Finmap.lookup_erase_ne hne]
    rw [startActors]
    cases hmachine : map.lookup name with
    | none =>
      have hskip : startOne map (name, cfg) = none := by simp [startOne, hmachine]
      dsimp only
      rw [List.filterMap_cons_none hskip, ih hnodup]
    | some machine =>
      dsimp only
      cases hactor : ActorModule.loadSingle name cfg with
      | none =>
        have hskip : startOne map (name, cfg) = none := by simp [startOne, hactor]
        dsimp only
        rw [List.filterMap_cons_none hskip, ih hnodup, herase]
      | some actor =>
        have htake : startOne map (name, cfg) = some ⟨name, actor, machine⟩ := by
          simp [startOne, hmachine, hactor]
        dsimp only
        rw [List.filterMap_cons_some htake, ih hnodup, herase]

theorem startActors_names {entries : List (String × ModuleConfig)}
    (hnodup : (entries.map Prod.fst).Nodup) (map : Finmap (fun _ : String => Resource)) :
    ((startActors entries map).map Wired.name).Sublist (entries.map Prod.fst) := by
  rw [startActors_eq hnodup]
  clear hnodup
  induction entries with
  | nil => exact List.Sublist.refl _
  | cons entry rest ih =>
    cases hone : startOne map entry with
    | none =>
      rw [List.filterMap_cons_none hone]
      exact ih.cons _
    | some w =>
      rw [List.filterMap_cons_some hone, List.map_cons, List.map_cons,
        (startOne_eq_some.mp hone).1]
      exact ih.cons_cons _

/-! ## `load` -/

variable {url : Option Url} {first : Except ConnectionError Unit} {actors : Modules}
  {connections : List (String × String)} {resources : ResourcesHandle} {options : MqttOptions}
  {wired : List Wired}

theorem Url.transport_ok {url : Url} :
    (∃ transport, url.transport = .ok transport) ↔
      url.scheme ∈ ["mqtts", "ssl", "mqtt", "tcp"] := by
  unfold Url.transport
  split <;> simp_all

theorem Url.mqttOptions_ok {url : Url} :
    (∃ options, url.mqttOptions = .ok options) ↔
      url.scheme ∈ ["mqtts", "ssl", "mqtt", "tcp"] ∧ url.host.isSome := by
  rw [← Url.transport_ok]
  unfold Url.mqttOptions
  cases url.transport with
  | error e =>
    constructor
    · rintro ⟨options, h⟩
      cases h
    · rintro ⟨⟨transport, h⟩, _⟩
      cases h
  | ok transport =>
    cases url.host with
    | none =>
      constructor
      · rintro ⟨options, h⟩
        cases h
      · rintro ⟨_, h⟩
        cases h
    | some host => exact ⟨fun _ => ⟨⟨_, rfl⟩, rfl⟩, fun _ => ⟨_, rfl⟩⟩

theorem load_eq_ok : load url first actors connections resources = .ok (options, wired) ↔
    ∃ u, url = some u ∧ u.mqttOptions = .ok options ∧ first = .ok () ∧
      wired = startActors actors.entries (actorMap resources connections) := by
  cases url with
  | none =>
    constructor
    · intro h
      cases h
    · rintro ⟨u, h, _⟩
      cases h
  | some u =>
    simp only [load, Option.some.injEq, exists_eq_left']
    cases u.mqttOptions with
    | error e =>
      constructor
      · intro h
        cases h
      · rintro ⟨h, _⟩
        cases h
    | ok options' =>
      cases first with
      | error e =>
        constructor
        · intro h
          cases h
        · rintro ⟨_, h, _⟩
          cases h
      | ok _ =>
        constructor
        · intro h
          cases h
          exact ⟨rfl, rfl, rfl⟩
        · rintro ⟨h, _, rfl⟩
          cases h
          rfl

/--
**`load` は、URL が MQTT のもので、host があり、最初の poll が失敗しないとき、そのときに限って成功する。
そのとき動き出すのは、ある機械に繋ぐ項があって module を作れる actor のそれぞれ一度だけで、繋がる機械は
最後の項のものである。**

無い機械に繋ぐ項は、前の項を打ち消さない。
-/
theorem load_starts_exactly (url : Option Url) (first : Except ConnectionError Unit)
    (actors : Modules) (connections : List (String × String)) (resources : ResourcesHandle) :
    ((∃ started, load url first actors connections resources = .ok started) ↔
      ∃ u, url = some u ∧ u.scheme ∈ ["mqtts", "ssl", "mqtt", "tcp"] ∧ u.host.isSome ∧
        first = .ok ()) ∧
    ∀ options wired, load url first actors connections resources = .ok (options, wired) →
      (wired.map Wired.name).Sublist (actors.entries.map Prod.fst) ∧
      ∀ w, w ∈ wired ↔ ∃ cfg, (w.name, cfg) ∈ actors.entries ∧
        lastConnected resources connections w.name = some w.machine ∧
        ActorModule.loadSingle w.name cfg = some w.actor := by
  refine ⟨?_, fun options wired h => ?_⟩
  · constructor
    · rintro ⟨⟨options, wired⟩, h⟩
      obtain ⟨u, hurl, hoptions, hfirst, _⟩ := load_eq_ok.mp h
      obtain ⟨hscheme, hhost⟩ := Url.mqttOptions_ok.mp ⟨options, hoptions⟩
      exact ⟨u, hurl, hscheme, hhost, hfirst⟩
    · rintro ⟨u, hurl, hscheme, hhost, hfirst⟩
      obtain ⟨options, hoptions⟩ := Url.mqttOptions_ok.mpr ⟨hscheme, hhost⟩
      exact ⟨(options, _), load_eq_ok.mpr ⟨u, hurl, hoptions, hfirst, rfl⟩⟩
  · obtain ⟨_, _, _, _, rfl⟩ := load_eq_ok.mp h
    refine ⟨startActors_names actors.nodup _, fun w => ?_⟩
    rw [startActors_eq actors.nodup, List.mem_filterMap]
    constructor
    · rintro ⟨⟨name, cfg⟩, hmem, hone⟩
      obtain ⟨rfl, hmachine, hactor⟩ := startOne_eq_some.mp hone
      exact ⟨cfg, hmem, lookup_actorMap resources connections _ ▸ hmachine, hactor⟩
    · rintro ⟨cfg, hmem, hmachine, hactor⟩
      refine ⟨(w.name, cfg), hmem, startOne_eq_some.mpr ⟨rfl, ?_, hactor⟩⟩
      rw [lookup_actorMap]
      exact hmachine

/-- `relay` は `laser` と `mill` に繋がり、そのあとで無い機械に繋がる。`cmd` の無い `script` は動かない。 -/
def twoActors : Modules where
  entries := [("relay", ⟨"Shelly", ∅⟩), ("script", ⟨"Process", ∅⟩)]
  nodup := by decide

def workshop : ResourcesHandle where
  resources := [laser, { laser with id := "mill" }]
  nodup := by decide

def relayMoved : List (String × String) :=
  [("relay", "laser"), ("script", "laser"), ("relay", "mill"), ("relay", "lathe")]

def brokerUrl : Url := ⟨"mqtt", some "localhost", none, "", none⟩

theorem load_starts_exactly_relayMoved :
    ∃ options, load (some brokerUrl) (.ok ()) twoActors relayMoved workshop = .ok (options,
        [⟨"relay", .shelly "shellies/relay/relay/0/command", { laser with id := "mill" }⟩]) ∧
      options.port = 1883 ∧
      lastConnected workshop relayMoved "relay" = some { laser with id := "mill" } := by
  have h : load (some brokerUrl) (.ok ()) twoActors relayMoved workshop = .ok
      (⟨.tcp, "localhost", 1883, none⟩,
        [⟨"relay", .shelly "shellies/relay/relay/0/command", { laser with id := "mill" }⟩]) := by
    rfl
  refine ⟨_, h, rfl, ?_⟩
  obtain ⟨_, hmem⟩ := (load_starts_exactly _ _ _ _ _).2 _ _ h
  obtain ⟨_, _, hmachine, _⟩ := (hmem _).mp (List.mem_singleton_self _)
  exact hmachine

end FabAccess.Actors
