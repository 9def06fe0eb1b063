import WindowTransitions.Json.Shape

/-! Names of transitions, handlers and default animations. -/

set_option autoImplicit false

namespace WindowTransitions

/-- The authority's name for one transition from its start to its finish. -/
structure Token where
  number : UInt64
  deriving DecidableEq

/-- A handler, by the number of handlers that were registered before it. -/
structure HandlerId where
  index : Nat
  deriving DecidableEq

structure AnimationId where
  number : UInt64
  deriving DecidableEq

namespace Token

def label (t : Token) : String := "#" ++ t.number.toNat.repr

def toJson (t : Token) : Json := .ofUInt64 t.number

def ofJson? (j : Json) : Option Token := j.uint64?.map Token.mk

/-- A list of tokens as messages show it. -/
def listLabel (ts : List Token) : String :=
  "[" ++ ", ".intercalate (ts.map fun t => "TransitionToken(" ++ t.number.toNat.repr ++ ")") ++ "]"

end Token

namespace HandlerId

def label (h : HandlerId) : String := "handler:" ++ h.index.repr

def toJson (h : HandlerId) : Json := .ofNat h.index

def ofJson? (j : Json) : Option HandlerId := (j.below? UInt64.size).map HandlerId.mk

end HandlerId

namespace AnimationId

def label (a : AnimationId) : String := "anim:" ++ a.number.toNat.repr

def toJson (a : AnimationId) : Json := .ofUInt64 a.number

/-- The id after `a`. -/
def next (a : AnimationId) : AnimationId := ⟨a.number + 1⟩

/-- `count` ids from `a` on. -/
def upFrom (a : AnimationId) : Nat → List AnimationId
  | 0 => []
  | count + 1 => a :: a.next.upFrom count

/-- The id `count` places behind `a`. -/
def skip (a : AnimationId) (count : Nat) : AnimationId := ⟨a.number + UInt64.ofNat count⟩

end AnimationId

end WindowTransitions
