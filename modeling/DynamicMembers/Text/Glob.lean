/-!
Glob patterns. `?` stands for one character, `*` for any run of characters, `[…]` for one character
of a set and `[!…]` for one outside it; `**` stands for whole components of a path and has to be
one. The first character of a set is always a member of it, so `]` may stand there.

What the steps of a pattern describe is said by `describes`. Trying every end of a text for every
`*` takes time exponential in their number, so `accepts` answers for all ends of the text at once,
from the last step to the first. The main statement, `accepts_eq_describes`, says that both agree.
-/

namespace DynamicMembers.Glob

/-- A part of a set: one character, or all characters between two. -/
inductive SetPart
  | single (c : Char)
  | range (low high : Char)
  deriving Repr, DecidableEq

/-- The characters that a step for one character stands for. -/
inductive CharSet
  | only (c : Char)
  | any
  | within (parts : List SetPart)
  | outside (parts : List SetPart)
  deriving Repr, DecidableEq

/-- One step of a pattern. -/
inductive Token
  | one (set : CharSet)
  | run
  | components
  deriving Repr, DecidableEq

/-- Why a text is no pattern. -/
inductive Fault
  | starRun
  | starComponent
  | unclosedSet
  deriving Repr, DecidableEq

namespace Fault

def message : Fault → String
  | starRun => "wildcards are either regular `*` or recursive `**`"
  | starComponent => "recursive wildcards must form a single path component"
  | unclosedSet => "invalid range pattern"

end Fault

/-- The parts of a set's body: `a-b` is a range wherever three characters remain. -/
def setParts : List Char → List SetPart
  | low :: '-' :: high :: rest => .range low high :: setParts rest
  | c :: rest => .single c :: setParts rest
  | [] => []

/-- Splits off a set's body at the first `]` behind its first character. -/
def splitSet : List Char → Option (List Char × List Char)
  | [] => none
  | first :: rest =>
    match rest.dropWhile (· != ']') with
    | [] => none
    | _ :: behind => some (first :: rest.takeWhile (· != ']'), behind)

/-- The set that follows an opening bracket, and what is behind it. -/
def readSet : List Char → Option (CharSet × List Char)
  | '!' :: rest => (splitSet rest).map fun (body, behind) => (.outside (setParts body), behind)
  | rest => (splitSet rest).map fun (body, behind) => (.within (setParts body), behind)

def isSeparator (c : Char) : Bool :=
  c == '/'

def startsComponent : Option Char → Bool
  | none => true
  | some c => isSeparator c

/-- The steps of a pattern; `before` is the character read last. Every round reads at least one
character, so the length of the text is fuel enough. -/
def readTokens (before : Option Char) : Nat → List Char → Except Fault (List Token)
  | _, [] => .ok []
  | 0, _ => .ok []
  | fuel + 1, '?' :: rest => (.one .any :: ·) <$> readTokens (some '?') fuel rest
  | fuel + 1, '*' :: '*' :: rest =>
    match rest with
    | '*' :: _ => .error .starRun
    | _ =>
      if startsComponent before then
        match rest with
        | [] => .ok [.components]
        | c :: rest =>
          if isSeparator c then (.components :: ·) <$> readTokens (some c) fuel rest
          else .error .starComponent
      else .error .starComponent
  | fuel + 1, '*' :: rest => (.run :: ·) <$> readTokens (some '*') fuel rest
  | fuel + 1, '[' :: rest =>
    match readSet rest with
    | none => .error .unclosedSet
    | some (set, behind) => (.one set :: ·) <$> readTokens (some ']') fuel behind
  | fuel + 1, c :: rest => (.one (.only c) :: ·) <$> readTokens (some c) fuel rest

def parse (pattern : List Char) : Except Fault (List Token) :=
  readTokens none pattern.length pattern

/-! ## What a pattern describes -/

namespace SetPart

def holds (c : Char) : SetPart → Bool
  | single d => c == d
  | range low high => low ≤ c && c ≤ high

end SetPart

namespace CharSet

def holds (c : Char) : CharSet → Bool
  | only d => c == d
  | any => true
  | within parts => parts.any (·.holds c)
  | outside parts => !parts.any (·.holds c)

end CharSet

def suffixes : List Char → List (List Char)
  | [] => [[]]
  | c :: cs => (c :: cs) :: suffixes cs

def laterStarts : List Char → List (List Char)
  | [] => []
  | c :: cs => if isSeparator c || cs.isEmpty then cs :: laterStarts cs else laterStarts cs

/-- Do the steps describe the whole text? -/
def describes : List Token → List Char → Bool
  | [], cs => cs.isEmpty
  | .one _ :: _, [] => false
  | .one set :: ts, c :: cs => set.holds c && describes ts cs
  | .run :: ts, cs => (suffixes cs).any (describes ts)
  | .components :: ts, cs => (cs :: laterStarts cs).any (describes ts)

/-! ## The answers for all ends of a text -/

/-- From answers for all ends of a text: does some end, the whole text or a shorter one, hold? -/
def anyEnd : List Bool → List Bool
  | [] => []
  | b :: bs =>
    let later := anyEnd bs
    (b || later.headD false) :: later

/-- From answers for all ends of a text: does the text behind the first character hold, and is that
character in the set? -/
def behindOne (set : CharSet) : List Char → List Bool → List Bool
  | c :: cs, _ :: bs => (set.holds c && bs.headD false) :: behindOne set cs bs
  | _, _ => [false]

/-- From answers for all ends of a text: does some shorter end hold where a component starts? -/
def anyLaterStart : List Char → List Bool → List Bool
  | c :: cs, _ :: bs =>
    let later := anyLaterStart cs bs
    ((isSeparator c || cs.isEmpty) && bs.headD false || later.headD false) :: later
  | _, _ => [false]

def Token.before (cs : List Char) (answers : List Bool) : Token → List Bool
  | one set => behindOne set cs answers
  | run => anyEnd answers
  | components => answers.zipWith (· || ·) (anyLaterStart cs answers)

/-- For every end of the text, the whole text first: do the steps describe it? -/
def answers (ts : List Token) (cs : List Char) : List Bool :=
  ts.foldr (fun t behind => t.before cs behind) ((suffixes cs).map List.isEmpty)

def accepts (ts : List Token) (cs : List Char) : Bool :=
  (answers ts cs).headD false

/-! ## Both agree -/

@[simp] theorem headD_map_suffixes (f : List Char → Bool) (cs : List Char) :
    ((suffixes cs).map f).headD false = f cs := by
  cases cs <;> rfl

theorem anyEnd_map_suffixes (f : List Char → Bool) (cs : List Char) :
    anyEnd ((suffixes cs).map f) = (suffixes cs).map fun ds => (suffixes ds).any f := by
  induction cs with
  | nil => simp [suffixes, anyEnd]
  | cons c cs ih => simp only [suffixes, List.map_cons, anyEnd, ih, headD_map_suffixes,
      List.any_cons]

theorem behindOne_map_suffixes (set : CharSet) (ts : List Token) (cs : List Char) :
    behindOne set cs ((suffixes cs).map (describes ts)) =
      (suffixes cs).map (describes (.one set :: ts)) := by
  induction cs with
  | nil => rfl
  | cons c cs ih => simp only [suffixes, List.map_cons, behindOne, headD_map_suffixes, ih,
      describes]

theorem anyLaterStart_map_suffixes (f : List Char → Bool) (cs : List Char) :
    anyLaterStart cs ((suffixes cs).map f) =
      (suffixes cs).map fun ds => (laterStarts ds).any f := by
  induction cs with
  | nil => rfl
  | cons c cs ih =>
    simp only [suffixes, List.map_cons, anyLaterStart, ih, headD_map_suffixes, laterStarts]
    cases isSeparator c || cs.isEmpty <;> simp

theorem answers_eq_map_describes (ts : List Token) (cs : List Char) :
    answers ts cs = (suffixes cs).map (describes ts) := by
  induction ts with
  | nil => simp [answers, describes]
  | cons t ts ih =>
    have step : answers (t :: ts) cs = t.before cs ((suffixes cs).map (describes ts)) := by
      rw [← ih]; rfl
    rw [step]
    cases t with
    | one set => exact behindOne_map_suffixes set ts cs
    | run => simp only [Token.before, anyEnd_map_suffixes, describes]
    | components =>
      simp only [Token.before, anyLaterStart_map_suffixes, List.zipWith_map, List.zipWith_self,
        describes, List.any_cons]

theorem accepts_eq_describes (ts : List Token) (cs : List Char) :
    accepts ts cs = describes ts cs := by
  rw [accepts, answers_eq_map_describes, headD_map_suffixes]

end DynamicMembers.Glob
