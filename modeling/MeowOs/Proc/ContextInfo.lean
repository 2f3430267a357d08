import Mathlib.Data.List.Basic

/-! # What a program is started with

The command line of `context/info.rs`.  Strings are lists of their characters.
-/

namespace MeowOs.Proc

namespace CommandSplitter

def escaped : Char → Char
  | 'n' => '\n'
  | 't' => '\t'
  | 'r' => '\r'
  | '0' => '\x00'
  | c => c

/-- The loop of `next`: the string that it returns, and the characters that are left. -/
def nextFrom (pulledSome : Bool) (buildStr : List Char) : List Char → Option (List Char × List Char)
  | [] => if pulledSome then some (buildStr, []) else none
  | next :: inner =>
    if next = '\\' then
      match inner with
      | [] => some (buildStr, [])
      | next :: inner => nextFrom true (buildStr ++ [escaped next]) inner
    else if next = ' ' then some (buildStr, inner)
    else nextFrom true (buildStr ++ [next]) inner

def next (inner : List Char) : Option (List Char × List Char) := nextFrom false [] inner

def yields : Nat → List Char → List (List Char)
  | 0, _ => []
  | fuel + 1, inner => match next inner with
    | none => []
    | some (string, inner) => string :: yields fuel inner

end CommandSplitter

def escape (string : List Char) : List Char := string.flatMap fun c => if c = ' ' ∨ c = '\\' then ['\\', c] else [c]

def commandLine (strings : List (List Char)) : List Char := [' '].intercalate (strings.map escape)

namespace CommandSplitter

theorem nextFrom_escape (pulledSome : Bool) (buildStr string rest : List Char) :
    nextFrom pulledSome buildStr (escape string ++ rest) =
      nextFrom (pulledSome || !string.isEmpty) (buildStr ++ string) rest := by
  induction string generalizing pulledSome buildStr with
  | nil => simp [escape]
  | cons c string ih =>
    have pushed : nextFrom pulledSome buildStr (escape (c :: string) ++ rest) =
        nextFrom true (buildStr ++ [c]) (escape string ++ rest) := by
      by_cases special : c = ' ' ∨ c = '\\'
      · obtain rfl | rfl := special <;> rfl
      have plain : escape (c :: string) = c :: escape string := by rw [escape, List.flatMap_cons, if_neg special]; rfl
      obtain ⟨noSpace, noBackslash⟩ := not_or.mp special
      rw [plain, List.cons_append, nextFrom.eq_def]
      exact (if_neg noBackslash).trans (if_neg noSpace)
    rw [pushed, ih]
    simp

/-- Splitting undoes escaping. -/
theorem yields_commandLine (strings : List (List Char)) (last : strings.getLast? ≠ some []) (fuel : Nat)
    (enough : strings.length < fuel) : yields fuel (commandLine strings) = strings := by
  induction strings generalizing fuel with
  | nil => cases enough <;> rfl
  | cons string strings ih =>
    obtain ⟨fuel, rfl⟩ := Nat.exists_eq_succ_of_ne_zero (Nat.ne_zero_of_lt enough)
    cases strings with
    | nil =>
      have nonempty : string ≠ [] := fun empty => last (congrArg (fun string => some string) empty)
      have read : next (commandLine [string]) = some (string, []) := by
        have whole : commandLine [string] = escape string ++ [] := by simp [commandLine]
        rw [whole, next, nextFrom_escape]
        simp [nextFrom, nonempty]
      rw [yields, read]
      exact congrArg (string :: ·) (ih nofun fuel (Nat.lt_of_succ_lt_succ enough))
    | cons other strings =>
      have read : next (commandLine (string :: other :: strings)) = some (string, commandLine (other :: strings)) := by
        refine (nextFrom_escape false [] string (' ' :: commandLine (other :: strings))).trans ?_
        rw [nextFrom.eq_def]
        rfl
      rw [yields, read]
      exact congrArg (string :: ·) (ih last fuel (Nat.lt_of_succ_lt_succ enough))

theorem yields_commandLine_three : commandLine [['a', ' '], [], ['\\']] = ['a', '\\', ' ', ' ', ' ', '\\', '\\'] ∧
    yields 4 (commandLine [['a', ' '], [], ['\\']]) = [['a', ' '], [], ['\\']] :=
  ⟨by decide, yields_commandLine _ (by decide) 4 (by decide)⟩

end CommandSplitter

end MeowOs.Proc
