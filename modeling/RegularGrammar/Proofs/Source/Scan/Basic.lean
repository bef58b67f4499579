import Mathlib.Algebra.Group.Nat.Defs
import RegularGrammar.Proofs.Source.Scan.Cut
import RegularGrammar.Source.Items

/-!
# Scanners

A scanner keeps what is left of a text and counts the bytes before it. How far it moves on is
worked out in bytes. A scan that cuts the text inside a character, loses count, lets a number
grow too large, comes to where it cannot come or does not come to an end is at fault.
-/

namespace RegularGrammar.Source

structure Scanner where
  whole : List Char
  rest : List Char
  /-- The bytes before what is left. -/
  byte : Nat
  /-- The item that was looked at and not yet given away. -/
  held : Option Item

/-- What no scan may come to. -/
inductive Fault where
  /-- A cut past the end of a text or inside a character. -/
  | badCut
  /-- What is left is not what stands after the bytes that were counted. -/
  | displaced
  /-- A number below zero, or one that takes more than 32 bits. -/
  | overflow
  /-- What an earlier look at the next item excludes. -/
  | unreachable
  /-- More rounds than the text has room for. -/
  | endless

/-- A scan moves a scanner, unless it is at fault. -/
abbrev Scan := StateT Scanner (Except Fault)

/-- From one scanner to another, a scan comes to a result and not to a fault. -/
def Yields {α : Type} (x : Scan α) (s : Scanner) (a : α) (t : Scanner) : Prop := x.run s = .ok (a, t)

section

variable {α β : Type} {x : Scan α} {f : α → Scan β} {s t u : Scanner} {a : α} {b : β}

theorem yields_pure (a : α) (s : Scanner) : Yields (pure a) s a s := rfl

theorem yields_get (s : Scanner) : Yields get s s s := rfl

theorem Yields.run_bind (h : Yields x s a t) : (x >>= f).run s = (f a).run t := by
  rw [StateT.run_bind, h]
  rfl

theorem Yields.bind (h : Yields x s a t) (h' : Yields (f a) t b u) : Yields (x >>= f) s b u := by
  rw [Yields, h.run_bind]
  exact h'

end

namespace Scanner

/-- The scanner of a text between what is before it and what is left. -/
def between (before rest : List Char) (held : Option Item) : Scanner := ⟨before ++ rest, rest, utf8Length before, held⟩

@[simp]
theorem rest_between (before rest : List Char) (held : Option Item) : (between before rest held).rest = rest := rfl

end Scanner

open Scanner (between)

namespace Scan

def cut (cs : List Char) (n : Nat) : Scan (List Char × List Char) :=
  match cut? cs n with
  | some parts => return parts
  | none => throw .badCut

/-- What stands after so many bytes. -/
def after (cs : List Char) (n : Nat) : Scan (List Char) := do
  let parts ← cut cs n
  return parts.2

/-- What stands between two places. -/
def slice (cs : List Char) (first last : Nat) : Scan (List Char) := do
  let parts ← cut cs last
  after parts.1 first

/-- Moves on by so many bytes. What is then left is held against the bytes that are counted. -/
def skip (n : Nat) : Scan Unit := do
  let s ← get
  let rest ← after s.rest n
  let counted ← after s.whole (s.byte + n)
  if counted = rest then set { s with rest, byte := s.byte + n } else throw .displaced

/-- Moves on by so many bytes, of which a token is made. -/
def take (kind : TokenKind) (n : Nat) : Scan Token := do
  let s ← get
  skip n
  let origin ← slice s.whole s.byte (s.byte + n)
  return ⟨kind, s.byte, String.ofList origin⟩

/-- Moves on to the end. -/
def skipAll : Scan Unit := do
  let s ← get
  skip (utf8Length s.rest)

def minus (m n : Nat) : Scan Nat := if n ≤ m then return m - n else throw .overflow

/-- A number that has to fit into 32 bits. -/
def word32 (n : Nat) : Scan Nat := if n < 2 ^ 32 then return n else throw .overflow

section

variable {word : List Char} {s : Scanner} {n : Nat}

theorem yields_cut (u v : List Char) (s : Scanner) : Yields (cut (u ++ v) (utf8Length u)) s (u, v) s := by
  rw [cut, cut?_append]
  exact yields_pure _ s

theorem yields_after (u v : List Char) (s : Scanner) : Yields (after (u ++ v) (utf8Length u)) s v s :=
  (yields_cut u v s).bind (yields_pure v s)

theorem yields_slice (u v w : List Char) (s : Scanner) :
    Yields (slice (u ++ v ++ w) (utf8Length u) (utf8Length (u ++ v))) s v s :=
  (yields_cut (u ++ v) w s).bind (yields_after u v s)

theorem yields_skip (length : utf8Length word = n) (before rest : List Char) (held : Option Item) :
    Yields (skip n) (between before (word ++ rest) held) () (between (before ++ word) rest held) := by
  subst length
  refine (yields_get _).bind ((yields_after word rest _).bind ?_)
  have counted := yields_after (before ++ word) rest (between before (word ++ rest) held)
  rw [utf8Length_append, List.append_assoc] at counted
  refine counted.bind ?_
  rw [if_pos rfl, between, between, utf8Length_append, List.append_assoc]
  rfl

-- A cut inside a character is a fault.
example : (skip 1).run ⟨['é'], ['é'], 0, none⟩ = .error .badCut := rfl

theorem yields_skipAll (before rest : List Char) (held : Option Item) :
    Yields skipAll (between before rest held) () (between (before ++ rest) [] held) := by
  refine (yields_get _).bind ?_
  have skipped := yields_skip (Eq.refl (utf8Length rest)) before [] held
  rwa [List.append_nil] at skipped

theorem yields_take (length : utf8Length word = n) (kind : TokenKind) (before rest : List Char) (held : Option Item) :
    Yields (take kind n) (between before (word ++ rest) held) ⟨kind, utf8Length before, String.ofList word⟩
      (between (before ++ word) rest held) := by
  refine (yields_get _).bind ((yields_skip length before rest held).bind ?_)
  subst length
  have origin := yields_slice before word rest (between (before ++ word) rest held)
  rw [utf8Length_append, List.append_assoc] at origin
  exact origin.bind (yields_pure _ _)

theorem yields_minus {m : Nat} (le : n ≤ m) : Yields (minus m n) s (m - n) s := by
  rw [minus, if_pos le]
  exact yields_pure _ s

theorem yields_word32 (small : n < 2 ^ 32) : Yields (word32 n) s n s := by
  rw [word32, if_pos small]
  exact yields_pure n s

end

end Scan

end RegularGrammar.Source
