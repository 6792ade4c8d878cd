import Mathlib.Data.Finmap
import FabAccess.Console.Updates
import FabAccess.Infra.Interleave

/-!
# 統計を client に写す

`runtime/console/src/id_map.rs` の `as_proto`、`stats.rs` の `Unsent` と `make_dirty`、`aggregate.rs` の
`publish` と `add_instrument_subscription` の埋め込み。

統計は producer の thread が書き、`Aggregator` の thread が読んで client に送る。lock は統計の全体には
かからない。producer は field を書いてから `is_dirty` を立て、`Aggregator` は `is_dirty` を下ろしてから
field を読む。一つの field への読み書きと、`is_dirty` への操作の一回ずつを一歩とする。

* producer が書く値は何も仮定しない。`start_poll`・`end_poll`・`record_wake_op`・`drop_task` などの、
  どの field をどの順に書くかも外から与える
* `HashMap` を辿る順序は決まっていない
* client は、送られた値をそのまま写しに書き込む
-/

namespace FabAccess.Console

open Infra

variable {F V : Type}

/-- `TaskStats` など。`F` は field の名前、`V` は値である。 -/
structure StatsObject (F V : Type) where
  fields : F → V
  isDirty : Bool

/-- client の手にある写し。 -/
abbrev View (F V : Type) := Nat → F → Option V

/-- 送られた値を書き込んだ写し。 -/
def View.apply (view staged : View F V) : View F V := fun id f => (staged id f).or (view id f)

/--
統計の object と、`Aggregator` の持つもの。object は `Arc` で、作った順に番号で呼ぶ。`inserted` は、
これまでに表に入った object の記録である。
-/
structure Board (F V : Type) where
  objects : Nat → StatsObject F V
  made : Nat
  inserted : Finset Nat
  data : Finmap (fun _ : Nat => Nat)
  watchers : List (Nat × View F V)

/-- 動くもの。 -/
inductive Party (F V : Type) where
  /-- object を書き換えている producer。`left` はまだ書いていない field、`written` は書いた field である -/
  | producer (object : Nat) (left written : List F)
  | finished
  /-- `select!` の前後 -/
  | idle
  /-- `as_proto` の途中。`todo` はまだ見ていない id、`left` は `id` のまだ読んでいない field である -/
  | reading (scope : Include) (todo : List Nat) (id : Nat) (left : List F) (staged : View F V)

/-- 一歩の選び方。 -/
inductive Pick (V : Type) where
  | go
  | write (value : V)
  /-- `update_state` が object を表に入れる -/
  | insert (id object : Nat)
  /-- 送り出しを始める。`order` は `HashMap` を辿る順序である -/
  | start (scope : Include) (order : List Nat)
  /-- 送る。`watch` は新しい client の番号、`delivers` は届くかどうかである -/
  | send (watch : Nat) (delivers : Nat → Bool)

/-- producer の始まり。 -/
inductive Producing (F V : Type) where
  /-- `TaskStats::new` など -/
  | new (fields : F → V)
  /-- `start_poll` など -/
  | update (object : Nat) (fields : List F)

namespace Board

def empty (fields : F → V) : Board F V where
  objects := fun _ => ⟨fields, true⟩
  made := 0
  inserted := ∅
  data := ∅
  watchers := []

def setObject (board : Board F V) (object : Nat) (stats : StatsObject F V) : Board F V :=
  { board with objects := Function.update board.objects object stats }

section SetObject

variable {board : Board F V} {object object' : Nat} {stats : StatsObject F V}

@[simp] theorem setObject_data : (board.setObject object stats).data = board.data := rfl

@[simp] theorem setObject_watchers : (board.setObject object stats).watchers = board.watchers := rfl

@[simp] theorem setObject_made : (board.setObject object stats).made = board.made := rfl

@[simp] theorem setObject_inserted : (board.setObject object stats).inserted = board.inserted := rfl

@[simp] theorem setObject_self : (board.setObject object stats).objects object = stats :=
  Function.update_self ..

theorem setObject_of_ne (h : object' ≠ object) :
    (board.setObject object stats).objects object' = board.objects object' :=
  Function.update_of_ne h ..

end SetObject

/-- producer を始める。新しい object の `is_dirty` は初めから立っている。 -/
def produce (board : Board F V) : Producing F V → Option (Board F V × List (Party F V))
  | .new fields =>
    some ({ board.setObject board.made ⟨fields, true⟩ with made := board.made + 1 }, [])
  | .update object fields =>
    if object < board.made then some (board, [.producer object fields []]) else none

variable [DecidableEq F]

/-- 送り出しのために、`id` の object を読み始める。`UpdatedOnly` なら `take_unsent` が真のときだけ読む。 -/
def visit (all : List F) (board : Board F V) (scope : Include) (todo : List Nat) (id : Nat)
    (staged : View F V) : Option (Board F V × Party F V) :=
  match board.data.lookup id with
  | none => none
  | some object =>
    let stats := board.objects object
    match scope with
    | .all => some (board, .reading scope todo id all staged)
    | .updatedOnly =>
      if stats.isDirty then
        some (board.setObject object { stats with isDirty := false },
          .reading scope todo id all staged)
      else some (board, .reading scope todo id [] staged)

/-- 送る。届かなかった client は外す。新しい client は、初めの送り出しが届けば加える。 -/
def deliver (board : Board F V) (scope : Include) (staged : View F V) (watch : Nat)
    (delivers : Nat → Bool) : Board F V :=
  match scope with
  | .all =>
    if delivers watch then { board with watchers := board.watchers ++ [(watch, staged)] } else board
  | .updatedOnly =>
    { board with watchers := (board.watchers.filter fun w => delivers w.1).map fun w =>
        (w.1, w.2.apply staged) }

/-- 一歩。`all` はすべての field である。 -/
def next (all : List F) (board : Board F V) (party : Party F V) (pick : Pick V) :
    Option (Board F V × Party F V) :=
  match party, pick with
  | .producer object (f :: left) written, .write value =>
    let stats := board.objects object
    some (board.setObject object { stats with fields := Function.update stats.fields f value },
      .producer object left (f :: written))
  -- `make_dirty`
  | .producer object [] _, .go =>
    some (board.setObject object { board.objects object with isDirty := true }, .finished)
  | .idle, .insert id object =>
    if object < board.made ∧ object ∉ board.inserted then
      some ({ board with
        inserted := insert object board.inserted
        data := board.data.insert id object }, .idle)
    else none
  | .idle, .start scope order =>
    if order.Nodup ∧ order.toFinset = board.data.keys ∧
        (scope = .updatedOnly → board.watchers ≠ []) then
      some (board, .reading scope order 0 [] fun _ _ => none)
    else none
  | .reading scope todo id (f :: left) staged, .go =>
    match board.data.lookup id with
    | none => none
    | some object =>
      let value := (board.objects object).fields f
      some (board, .reading scope todo id left
        fun id' f' => if id' = id ∧ f' = f then some value else staged id' f')
  | .reading scope (id :: todo) _ [] staged, .go => visit all board scope todo id staged
  | .reading scope [] _ [] staged, .send watch delivers =>
    some (board.deliver scope staged watch delivers, .idle)
  | _, _ => none

end Board

/-- producer がいくつも動く間に、一つの `Aggregator` が client に送る系。 -/
def console [DecidableEq F] (all : List F) :
    System (Board F V) (Party F V) (Producing F V) (Pick V) where
  spawn := Board.produce
  next := Board.next all

/-- 統計も client も無く、`Aggregator` が待っている。 -/
def consoleStart (fields : F → V) : Config (Board F V) (Party F V) := ⟨.empty fields, [.idle]⟩

end FabAccess.Console
