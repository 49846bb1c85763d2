/-
Expressions without needless parts: rows within rows and alternatives within alternatives are taken
apart, literals next to each other are joined, and what can be said by a set is. Each function here
matches what the constructor of its kind matches.
-/
import JsonSieve.Pattern.Expr

namespace JsonSieve.Pattern.Expr

/-- The number of constructors. -/
def nodes : Expr → Nat
  | .empty | .literal _ | .set _ _ | .anchor _ => 1
  | .group _ e | .times _ e _ _ => e.nodes + 1
  | .seq a b | .either a b => a.nodes + b.nodes + 1

/-! ## Sets -/

/-- What matches nothing at all. -/
def never : Expr :=
  .set true .none

/-- One member of a set. -/
def ofSet (bytes : Bool) (members : CharSet) : Expr :=
  if members.isEmpty then never
  else
    match members.only? with
    | some c => .literal [c]
    | none => .set bytes members

/-! ## Rows -/

/-- The parts that are matched one after the other. -/
def parts : Expr → List Expr
  | .seq a b => a :: b.parts
  | e => [e]

/-- Parts without empty ones, literals next to each other joined. -/
def joined : List Expr → List Expr
  | [] => []
  | .empty :: es => joined es
  | .literal s :: es =>
    match joined es with
    | .literal t :: rest => .literal (s ++ t) :: rest
    | rest => .literal s :: rest
  | e :: es => e :: joined es

/-- The expressions of a list one after the other, as they are. -/
def seqOf : List Expr → Expr
  | [] => .empty
  | [e] => e
  | e :: es => .seq e (seqOf es)

/-- The expressions of a list one after the other. -/
def row (es : List Expr) : Expr :=
  seqOf (joined (es.flatMap parts))

/-! ## Alternatives -/

/-- The alternatives of an expression. -/
def alternatives : Expr → List Expr
  | .either a b => a :: b.alternatives
  | e => [e]

/-- The expressions of a list as alternatives, as they are. -/
def eitherOf : List Expr → Expr
  | [] => never
  | [e] => e
  | e :: es => .either e (eitherOf es)

/-- The character that an expression stands for. -/
def char? : Expr → Option Char
  | .literal [c] => some c
  | _ => none

/-- The set that an expression stands for. -/
def set? : Expr → Option CharSet
  | .set _ members => some members
  | _ => none

/-- The set that alternatives make up together, if all are single characters or all are sets. -/
def union? (es : List Expr) : Option CharSet :=
  match es.mapM char? with
  | some cs => some (.unionOf (cs.map .single))
  | none => (es.mapM set?).map .unionOf

/-- The elements at the starts of two lists that are the same. -/
def commonStart : List Expr → List Expr → List Expr
  | a :: as, b :: bs => if a = b then a :: commonStart as bs else []
  | _, _ => []

/-- The parts that all of some rows start with. -/
def sharedStart : List Expr → List Expr
  | [] => []
  | e :: es =>
    if (e :: es).all fun e => 1 < e.parts.length then
      es.foldl (fun start e => commonStart start e.parts) e.parts
    else []

/-- The expressions of a list as alternatives, what they all start with in front. The first argument
bounds how often a start is taken out. -/
def anyOfWithin : Nat → List Expr → Expr
  | 0, es => eitherOf es
  | fuel + 1, es =>
    match es.flatMap alternatives with
    | [] => never
    | [e] => e
    | es =>
      match union? es with
      | some members => ofSet false members
      | none =>
        match sharedStart es with
        | [] => eitherOf es
        | start =>
          let rests := es.map fun e => row (e.parts.drop start.length)
          row (start ++ [anyOfWithin fuel rests])

/-- The expressions of a list as alternatives. -/
def anyOf (es : List Expr) : Expr :=
  anyOfWithin (es.foldl (fun n e => n + e.nodes) 1) es

/-! ## Repetitions -/

/-- An expression a number of times in a row. What has no width is repeated at most once. -/
def repeated (greedy : Bool) (e : Expr) (least : Nat) (most : Option Nat) : Expr :=
  let (least, most) :=
    if e.isZeroWidth then (min least 1, some (min (most.getD 1) 1)) else (least, most)
  if most = some 0 then .empty
  else if least = 1 ∧ most = some 1 then e
  else .times greedy e least most

end JsonSieve.Pattern.Expr
