import Scriptlet.Proofs.Grammar.Phrase
import Scriptlet.Proofs.Parse.Progress

/-!
What the parser and the grammar have to do with each other at one place. The
tokens that a cursor has before it are a list, and moving on drops its first
member. The strength of an operator says at which level it joins, and a phrase
of a level is one of every looser level too. The first token of a phrase tells
it from whatever can stand in its place.
-/

namespace Scriptlet

namespace Cursor

/-- The tokens behind the current one, up to the end. -/
def upcoming (c : Cursor) : List Token :=
  (c.ahead :: c.rest).takeWhile fun t => t.kind ≠ .finish

/-- The tokens from the current one on, up to the end. -/
def standing (c : Cursor) : List Token :=
  (c.current :: c.ahead :: c.rest).takeWhile fun t => t.kind ≠ .finish

/-- The kind of the first token, or of the end. -/
def nextKind : List Token → Kind
  | [] => .finish
  | t :: _ => t.kind

@[simp] theorem upcoming_record (c : Cursor) (d : Diagnostic) :
    (c.record d).upcoming = c.upcoming := rfl

@[simp] theorem standing_advance (c : Cursor) : c.advance.standing = c.upcoming := by
  obtain ⟨current, ahead, rest, endLine, endColumn, depth, diagnostics⟩ := c
  cases rest with
  | nil => simp [standing, upcoming, advance, List.takeWhile_cons, Token.finish]
  | cons t rest => rfl

theorem standing_eq {c : Cursor} (h : c.current.kind ≠ .finish) :
    c.standing = c.current :: c.upcoming := by
  simp [standing, upcoming, List.takeWhile_cons, h]

theorem upcoming_eq {c : Cursor} (h : c.ahead.kind ≠ .finish) :
    c.upcoming = c.ahead :: c.advance.upcoming := by
  rw [← standing_advance, standing_eq (by rwa [advance_current]), advance_current]

/-- A token of a known kind ahead, not the end. -/
theorem upcoming_of_kind {c : Cursor} {kind : Kind} (h : c.ahead.kind = kind)
    (hkind : kind ≠ .finish) : c.upcoming = c.ahead :: c.advance.upcoming :=
  upcoming_eq (by rwa [h])

theorem nextKind_upcoming (c : Cursor) : nextKind c.upcoming = c.ahead.kind := by
  by_cases h : c.ahead.kind = .finish
  · simp [upcoming, h, nextKind]
  · rw [upcoming_eq h, nextKind]

theorem nextKind_standing (c : Cursor) : nextKind c.standing = c.current.kind := by
  by_cases h : c.current.kind = .finish
  · simp [standing, h, nextKind]
  · rw [standing_eq h, nextKind]

theorem standing_cons {c : Cursor} {t : Token} {ts : List Token}
    (h : c.standing = t :: ts) : c.current = t ∧ c.upcoming = ts := by
  by_cases hkind : c.current.kind = .finish
  · simp [standing, hkind] at h
  · rw [standing_eq hkind, List.cons.injEq] at h
    exact h

theorem upcoming_cons {c : Cursor} {t : Token} {ts : List Token}
    (h : c.upcoming = t :: ts) : c.ahead = t ∧ c.advance.upcoming = ts := by
  rw [← standing_advance] at h
  have hcons := standing_cons h
  rwa [advance_current] at hcons

theorem upcoming_length_lt (c : Cursor) : c.upcoming.length + 1 < c.turns := by
  have hlength := (List.takeWhile_sublist (l := c.ahead :: c.rest)
    (fun t => decide (t.kind ≠ .finish))).length_le
  rw [List.length_cons] at hlength
  unfold upcoming turns
  omega

theorem standing_length_lt (c : Cursor) : c.standing.length < c.turns := by
  have hlength := (List.takeWhile_sublist (l := c.current :: c.ahead :: c.rest)
    (fun t => decide (t.kind ≠ .finish))).length_le
  simp only [List.length_cons] at hlength
  unfold standing turns
  omega

theorem standing_start (tokens : List Token) (line column : Nat)
    (h : ∀ t ∈ tokens, t.kind ≠ .finish) :
    (start tokens line column).standing = tokens := by
  have hall (ts : List Token) (hts : ∀ t ∈ ts, t.kind ≠ .finish) :
      ts.takeWhile (fun t => t.kind ≠ .finish) = ts := by
    induction ts with
    | nil => rfl
    | cons t ts ih =>
        have ht : t.kind ≠ .finish := hts t (by simp)
        rw [List.takeWhile_cons_of_pos (by simpa using ht),
          ih fun u hu => hts u (by simp [hu])]
  rcases tokens with _ | ⟨t, _ | ⟨u, rest⟩⟩
  · simp [start, advance, standing, Token.finish]
  · have ht : t.kind ≠ .finish := h t (by simp)
    simp [start, advance, standing, Token.finish, ht]
  · exact hall _ h

/-- Diagnostics that are the same at the end were the same all the way. -/
theorem Reach.unchanged {a b c : Cursor} (hab : a.Reach b) (hbc : b.Reach c)
    (h : c.diagnostics = a.diagnostics) :
    b.diagnostics = a.diagnostics ∧ c.diagnostics = b.diagnostics := by
  have hlength : b.diagnostics.length ≤ a.diagnostics.length := by
    have hle := hbc.diagnostics.length_le
    rwa [h] at hle
  have hsame := hab.diagnostics.eq_of_length_le hlength
  exact ⟨hsame.symm, h.trans hsame⟩

end Cursor

namespace Level

/-- The strength of the operators that join at a level, the strength of a sign,
and that of an opening parenthesis or bracket behind an operand. -/
def strength : Level → Int
  | .or => 2
  | .and => 3
  | .equality => 4
  | .relational => 5
  | .sum => 6
  | .product => 7
  | .unary => 8
  | .suffix => 9

theorem strength_bounds (level : Level) : 2 ≤ level.strength ∧ level.strength ≤ 9 := by
  cases level <;> decide

theorem eq_of_strength {level other : Level} (h : level.strength = other.strength) :
    level = other := by
  cases level <;> cases other <;> first | rfl | exact absurd h (by decide)

theorem strength_tighter {level : Level} (h : level ≠ .suffix) :
    level.tighter.strength = level.strength + 1 := by
  cases level <;> first | rfl | exact absurd rfl h

theorem strength_suffix {level : Level} (h : 9 ≤ level.strength) : level = .suffix := by
  cases level <;> first | rfl | exact absurd h (by decide)

/-- An operator that joins at a level has the strength of the level. -/
theorem strength_of_joins {level : Level} {kind : Kind} (h : level.joins kind = true) :
    kind.strength = level.strength ∧ level.strength ≤ 7 ∧ Parse.continues kind = true ∧
      kind ≠ .symbol .leftParen ∧ kind ≠ .symbol .leftBracket := by
  unfold joins at h
  split at h <;> first | exact absurd h (by decide) | decide

end Level

namespace Kind

theorem strength_pos (kind : Kind) : 1 ≤ kind.strength := by
  unfold strength
  split <;> decide

theorem strength_le (kind : Kind) : kind.strength ≤ 9 := by
  unfold strength
  split <;> decide

/-- What goes on with an expression is an operator of some level, an opening
parenthesis or an opening bracket. -/
theorem joins_of_continues {kind : Kind} (h : Parse.continues kind = true)
    (hparen : kind ≠ .symbol .leftParen) (hbracket : kind ≠ .symbol .leftBracket) :
    ∃ level : Level, level.joins kind = true := by
  unfold Parse.continues at h
  split at h
  case h_1 => exact ⟨.or, rfl⟩
  case h_2 => exact ⟨.and, rfl⟩
  case h_3 | h_4 => exact ⟨.equality, rfl⟩
  case h_5 | h_6 => exact ⟨.relational, rfl⟩
  case h_7 | h_8 => exact ⟨.sum, rfl⟩
  case h_9 | h_10 => exact ⟨.product, rfl⟩
  case h_11 => exact absurd rfl hparen
  case h_12 => exact absurd rfl hbracket
  case h_13 => cases h

theorem continues_iff_extends (kind : Kind) :
    Parse.continues kind = true ↔ kind.Extends := by
  constructor
  · intro h
    by_cases hparen : kind = .symbol .leftParen
    · exact .inr (.inl hparen)
    · by_cases hbracket : kind = .symbol .leftBracket
      · exact .inr (.inr hbracket)
      · exact .inl (joins_of_continues h hparen hbracket)
  · rintro (⟨level, hjoins⟩ | rfl | rfl)
    · exact (Level.strength_of_joins hjoins).2.2.1
    · rfl
    · rfl

/-- Just what goes on with an expression has more than the lowest strength. -/
theorem continues_iff_strength (kind : Kind) :
    Parse.continues kind = true ↔ 1 < kind.strength := by
  constructor
  · intro h
    unfold Parse.continues at h
    split at h <;> first | decide | cases h
  · intro h
    unfold strength at h
    split at h <;> first | rfl | exact absurd h (by decide)

/-- An expression starts with a token of this kind. -/
def begins : Kind → Bool
  | .ident | .number | .text => true
  | .keyword .trueWord | .keyword .falseWord | .keyword .ifWord | .keyword .fnWord => true
  | .symbol .bang | .symbol .minus | .symbol .plus => true
  | .symbol .leftParen | .symbol .leftBracket | .symbol .leftBrace => true
  | _ => false

theorem begins_of_isSign {kind : Kind} (h : kind.isSign = true) : kind.begins = true := by
  unfold isSign at h
  split at h <;> first | rfl | cases h

end Kind

namespace Derives

/-- A phrase of a level is one of every looser level. -/
theorem looser {level other : Level} {tree : Node} {ts : List Token}
    (h : Derives (.expr other tree) ts) (hle : level.strength ≤ other.strength) :
    Derives (.expr level tree) ts := by
  obtain ⟨n, hn⟩ : ∃ n : Nat, level.strength + n = other.strength :=
    ⟨(other.strength - level.strength).toNat, by omega⟩
  induction n generalizing level with
  | zero =>
      have heq : level = other := Level.eq_of_strength (by omega)
      rwa [heq]
  | succ n ih =>
      have hsuffix : level ≠ .suffix := by
        rintro rfl
        have hsuffix : Level.suffix.strength = 9 := rfl
        have hother := other.strength_bounds
        omega
      have htighter := Level.strength_tighter hsuffix
      exact .tighter hsuffix (ih (by omega) (by omega))

/-- How a phrase starts that is not empty. -/
def Starts : Phrase → List Token → Prop
  | .expr _ _, ts | .items (_ :: _), ts | .pairs (_ :: _), ts =>
    (Cursor.nextKind ts).begins = true
  | .statement _, ts | .statements (_ :: _), ts =>
    (Cursor.nextKind ts).begins = true ∨ Cursor.nextKind ts = .keyword .letWord ∨
      Cursor.nextKind ts = .keyword .returnWord
  | .names (_ :: _), ts => Cursor.nextKind ts = .ident
  | _, _ => True

theorem nextKind_append {ts : List Token} (h : Cursor.nextKind ts ≠ .finish)
    (us : List Token) : Cursor.nextKind (ts ++ us) = Cursor.nextKind ts := by
  cases ts with
  | nil => exact absurd rfl h
  | cons t ts => rfl

theorem begins_append {ts : List Token} (h : (Cursor.nextKind ts).begins = true)
    (us : List Token) : (Cursor.nextKind (ts ++ us)).begins = true := by
  have hfinish : Cursor.nextKind ts ≠ .finish := by
    intro heq
    rw [heq] at h
    cases h
  rwa [nextKind_append hfinish]

theorem starts {phrase : Phrase} {ts : List Token} (h : Derives phrase ts) :
    Starts phrase ts := by
  induction h with
  | tighter _ _ ih => exact ih
  | binary _ _ _ ih _ => exact begins_append ih _
  | unary hsign _ _ => exact Kind.begins_of_isSign hsign
  | call _ _ _ _ ih _ => exact begins_append ih _
  | index _ _ _ _ ih _ => exact begins_append ih _
  | ident hkind => simp [Starts, Cursor.nextKind, hkind, Kind.begins]
  | integer hkind => simp [Starts, Cursor.nextKind, hkind, Kind.begins]
  | text hkind => simp [Starts, Cursor.nextKind, hkind, Kind.begins]
  | @boolean t b hkind => cases b <;> simp [Starts, Cursor.nextKind, hkind, Kind.begins]
  | grouped hkind => simp [Starts, Cursor.nextKind, hkind, Kind.begins]
  | conditional hkind => simp [Starts, Cursor.nextKind, hkind, Kind.begins]
  | alternative hkind => simp [Starts, Cursor.nextKind, hkind, Kind.begins]
  | function hkind => simp [Starts, Cursor.nextKind, hkind, Kind.begins]
  | array hkind => simp [Starts, Cursor.nextKind, hkind, Kind.begins]
  | hash hkind => simp [Starts, Cursor.nextKind, hkind, Kind.begins]
  | items _ _ ih _ => exact begins_append ih _
  | pairs _ _ _ _ ih _ _ => exact begins_append ih _
  | names hkind => exact hkind
  | binding hkind => exact .inr (.inl hkind)
  | ret hkind => exact .inr (.inr hkind)
  | bareReturn hkind => exact .inr (.inr hkind)
  | expression _ ih => exact .inl ih
  | terminated _ _ _ ih _ | unterminated _ _ _ ih _ =>
      rcases ih with hbegins | hlet | hreturn
      · exact .inl (begins_append hbegins _)
      · exact .inr (.inl ((nextKind_append (by simp [hlet]) _).trans hlet))
      · exact .inr (.inr ((nextKind_append (by simp [hreturn]) _).trans hreturn))
  | _ => trivial

end Derives

end Scriptlet
