import LogHarvest.Text.Decimal
import LogHarvest.Text.Blank

/-!
# Sums

The arithmetic that scripts write between double parentheses: integers with the
usual operators, comparisons, and names of values.
-/

namespace LogHarvest
namespace Shell

open Text (isDigit)

inductive SumToken
  | number (n : Int)
  | sign (text : String)
deriving DecidableEq, Repr

/-- The value of digits, which are in another base than ten behind a zero. -/
def digitsValue (digits : List Char) : Nat :=
  let inBase (base : Nat) (digits : List Char) : Nat :=
    digits.foldl
      (fun n c => n * base + if isDigit c then Text.digitValue c else (Text.lowered c).toNat - 87) 0
  match digits with
  | '0' :: 'x' :: digits | '0' :: 'X' :: digits => inBase 16 digits
  | '0' :: digits => inBase 8 digits
  | _ => inBase 10 digits

/-- The value of a text that is an integer; other texts count as zero. -/
def integerOf (text : String) : Int :=
  match (Text.trim text).toList with
  | '-' :: digits => if digits.all Text.isAlphanumeric then -(digitsValue digits : Int) else 0
  | '+' :: digits | digits => if digits.all Text.isAlphanumeric then digitsValue digits else 0

def sumTokens (value : String → String) : (fuel : Nat) → List Char → List SumToken
  | 0, _ => []
  | _, [] => []
  | fuel + 1, c :: rest =>
      if Text.isBlank c then sumTokens value fuel rest
      else if isDigit c then
        let belongs (d : Char) : Bool := Text.isAlphanumeric d
        .number (digitsValue ((c :: rest).takeWhile belongs)) ::
          sumTokens value fuel ((c :: rest).dropWhile belongs)
      else if c == '_' || Text.isAlphanumeric c then
        let belongs (d : Char) : Bool := d == '_' || Text.isAlphanumeric d
        let name := String.ofList ((c :: rest).takeWhile belongs)
        .number (integerOf (value name)) :: sumTokens value fuel ((c :: rest).dropWhile belongs)
      else
        match rest with
        | d :: rest' =>
            if ["<=", ">=", "==", "!=", "&&", "||"].contains (String.ofList [c, d]) then
              .sign (String.ofList [c, d]) :: sumTokens value fuel rest'
            else .sign (String.singleton c) :: sumTokens value fuel rest
        | [] => [.sign (String.singleton c)]

def sumRanks : List (List String) :=
  [["||"], ["&&"], ["==", "!="], ["<=", ">=", "<", ">"], ["+", "-"], ["*", "/", "%"]]

def applySign (sign : String) (a b : Int) : Int :=
  let truth (good : Bool) : Int := if good then 1 else 0
  match sign with
  | "||" => truth (a != 0 || b != 0)
  | "&&" => truth (a != 0 && b != 0)
  | "==" => truth (a == b)
  | "!=" => truth (a != b)
  | "<=" => truth (a ≤ b)
  | ">=" => truth (b ≤ a)
  | "<" => truth (a < b)
  | ">" => truth (b < a)
  | "+" => a + b
  | "-" => a - b
  | "*" => a * b
  | "/" => a.tdiv b
  | _ => a.tmod b

mutual

def sumOf : (fuel : Nat) → List (List String) → List SumToken → Int × List SumToken
  | 0, _, tokens => (0, tokens)
  | fuel + 1, [], tokens => factorOf fuel tokens
  | fuel + 1, rank :: ranks, tokens =>
      let (first, rest) := sumOf fuel ranks tokens
      sumBehind fuel rank ranks first rest

def sumBehind : (fuel : Nat) → List String → List (List String) → Int → List SumToken →
    Int × List SumToken
  | 0, _, _, value, tokens => (value, tokens)
  | fuel + 1, rank, ranks, value, tokens =>
      match tokens with
      | .sign sign :: rest =>
          if rank.contains sign then
            let (next, rest) := sumOf fuel ranks rest
            sumBehind fuel rank ranks (applySign sign value next) rest
          else (value, tokens)
      | _ => (value, tokens)

def factorOf : (fuel : Nat) → List SumToken → Int × List SumToken
  | 0, tokens => (0, tokens)
  | fuel + 1, tokens =>
      match tokens with
      | .number n :: rest => (n, rest)
      | .sign "-" :: rest =>
          let (n, rest) := factorOf fuel rest
          (-n, rest)
      | .sign "+" :: rest => factorOf fuel rest
      | .sign "!" :: rest =>
          let (n, rest) := factorOf fuel rest
          (if n == 0 then 1 else 0, rest)
      | .sign "(" :: rest =>
          let (n, rest) := sumOf fuel sumRanks rest
          (n, rest.drop 1)
      | rest => (0, rest.drop 1)

end

def settingOf (text : String) : String × String :=
  let cs := (Text.trim text).toList
  let belongs (c : Char) : Bool := c == '_' || Text.isAlphanumeric c
  let name := cs.takeWhile belongs
  let rest := (cs.drop name.length).dropWhile Text.isBlank
  let isName :=
    match name with
    | c :: _ => !isDigit c
    | [] => false
  let whole (sum : List Char) : String × String := (String.ofList name, String.ofList sum)
  match isName, rest with
  | true, '=' :: '=' :: _ => ("", text)
  | true, '=' :: sum => whole sum
  | true, sign :: '=' :: sum =>
      if "+-*/%".toList.contains sign then
        whole (name ++ [' ', sign, ' ', '('] ++ sum ++ [')'])
      else ("", text)
  | _, _ => ("", text)

def sumValue (value : String → String) (text : String) : Int :=
  let tokens := sumTokens value (text.length + 1) text.toList
  (sumOf (10 * tokens.length + 10) sumRanks tokens).1

end Shell
end LogHarvest
