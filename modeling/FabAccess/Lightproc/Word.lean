import FabAccess.Infra.Bytes
import FabAccess.Lightproc.State

/-!
# state word の byte

`runtime/lightproc/src/state.rs` の `State` と `AtomicState` の、byte の並びまでの埋め込み。

八つの byte の前半が参照の数、後半が flag で、それぞれ機械の byte の順（`e`）に並ぶ。`AtomicState` は
これを一つの `u64` として持ち、演算はどれも `u64` の上で行われる。

`State.lean` の state は、この word を flag と数の組と見たものである（`Properties/Word.lean`）。
-/

namespace FabAccess.Lightproc.Packed

open Infra

/-- `bitflags` の `StateFlags`。名前の無い bit も立ちうる（`from_bits_unchecked`）。 -/
structure StateFlags where
  bits : BitVec 32
  deriving DecidableEq, Repr

namespace StateFlags

instance : AndOp StateFlags := ⟨fun f g => ⟨f.bits &&& g.bits⟩⟩

instance : OrOp StateFlags := ⟨fun f g => ⟨f.bits ||| g.bits⟩⟩

def SCHEDULED : StateFlags := ⟨1 <<< 0⟩
def RUNNING : StateFlags := ⟨1 <<< 1⟩
def COMPLETED : StateFlags := ⟨1 <<< 2⟩
def CLOSED : StateFlags := ⟨1 <<< 3⟩
def HANDLE : StateFlags := ⟨1 <<< 4⟩
def AWAITER : StateFlags := ⟨1 <<< 5⟩
def LOCKED : StateFlags := ⟨1 <<< 6⟩

/-- `!flags`。`bitflags` は名前の無い bit を落とす。 -/
def not (f : StateFlags) : StateFlags := ⟨~~~f.bits &&& 0x7f⟩

end StateFlags

/-- `State`。 -/
structure State where
  bytes : List (BitVec 8)
  length_eq : bytes.length = 8
  deriving DecidableEq

namespace State

variable (e : Endian)

def new (flags : StateFlags) (references : BitVec 32) : State where
  bytes := toNeBytes e references ++ toNeBytes e flags.bits
  length_eq := by simp [toNeBytes]

def getRefcount (s : State) : BitVec 32 := fromNeBytes e 32 (s.bytes.take 4)

def getFlags (s : State) : StateFlags := ⟨fromNeBytes e 32 (s.bytes.drop 4)⟩

def parts (s : State) : StateFlags × BitVec 32 :=
  (⟨fromNeBytes e 32 (s.bytes.drop 4)⟩, fromNeBytes e 32 (s.bytes.take 4))

def setRefcount (s : State) (refcount : BitVec 32) : State where
  bytes := toNeBytes e refcount ++ s.bytes.drop 4
  length_eq := by simp [toNeBytes, s.length_eq]

def intoU64 (s : State) : BitVec 64 := fromNeBytes e 64 s.bytes

def fromU64 (value : BitVec 64) : State where
  bytes := toNeBytes e value
  length_eq := by simp [toNeBytes]

end State

/-- `AtomicState`。 -/
structure AtomicState where
  inner : BitVec 64
  deriving DecidableEq, Repr

namespace AtomicState

variable (e : Endian)

def new (v : State) : AtomicState := ⟨v.intoU64 e⟩

def load (a : AtomicState) : State := .fromU64 e a.inner

/-- `compare_exchange`。 -/
def compareExchange (a : AtomicState) (current new : State) : Except State State × AtomicState :=
  if a.inner = current.intoU64 e then (.ok (.fromU64 e a.inner), ⟨new.intoU64 e⟩)
  else (.error (.fromU64 e a.inner), a)

def fetchOr (a : AtomicState) (val : StateFlags) : State × AtomicState :=
  let store := fromNeBytes e 64 ([0, 0, 0, 0] ++ toNeBytes e val.bits)
  (.fromU64 e a.inner, ⟨a.inner ||| store⟩)

def fetchAnd (a : AtomicState) (val : StateFlags) : State × AtomicState :=
  let store := fromNeBytes e 64 ([~~~0, ~~~0, ~~~0, ~~~0] ++ toNeBytes e val.bits)
  (.fromU64 e a.inner, ⟨a.inner &&& store⟩)

/-- `fetch_add`。あふれると回り込む。 -/
def fetchAdd (a : AtomicState) (val : BitVec 32) : State × AtomicState :=
  let store := fromNeBytes e 64 (toNeBytes e val ++ [0, 0, 0, 0])
  (.fromU64 e a.inner, ⟨a.inner + store⟩)

/-- `fetch_sub`。足りなければ回り込む。 -/
def fetchSub (a : AtomicState) (val : BitVec 32) : State × AtomicState :=
  let store := fromNeBytes e 64 (toNeBytes e val ++ [0, 0, 0, 0])
  (.fromU64 e a.inner, ⟨a.inner - store⟩)

end AtomicState

end FabAccess.Lightproc.Packed
