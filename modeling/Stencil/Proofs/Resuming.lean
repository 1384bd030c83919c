import Stencil.Proofs.Runs
import Mathlib.Logic.Function.Iterate

/-!
# Reading on after an error

A reader that has met an error can be called again. It then reads the tokens that are left
as if they were all there are, and only counts positions from the first token of all. Every
error takes at least one token away, so there are no more errors than tokens, and the first
template that is read takes all that is left.
-/

namespace Stencil

namespace SyntaxError

/-- The same error, met this many tokens further on. -/
def movedBy (distance : Nat) : SyntaxError → SyntaxError
  | invalidCondition location position => invalidCondition location (position + distance)
  | unexpectedToken token next => unexpectedToken token next
  | unterminatedIf expected => unterminatedIf expected

theorem movedBy_movedBy (error : SyntaxError) (first second : Nat) :
    (error.movedBy first).movedBy second = error.movedBy (second + first) := by
  cases error with
  | invalidCondition location position =>
      simp [movedBy, Nat.add_comm, Nat.add_left_comm]
  | unexpectedToken token next => rfl
  | unterminatedIf expected => rfl

theorem eq_of_movedBy {distance position : Nat} {error : SyntaxError} {location : Text}
    (h : error.movedBy distance = invalidCondition location position) :
    ∃ start, error = invalidCondition location start ∧ position = start + distance := by
  cases error with
  | invalidCondition location' start =>
      cases h
      exact ⟨start, rfl, rfl⟩
  | unexpectedToken token next => cases h
  | unterminatedIf expected => cases h

end SyntaxError

namespace Reader

/-! ## One call -/

/-- What a call makes of the tokens that are left, wherever it begins. -/
structure Takes (tokens taken left : List Token) : Prop where
  split : tokens = taken ++ left
  read : ∀ position : Nat, Reader.read ⟨position, tokens⟩ =
    ((Template.ofTokens tokens).mapError (·.movedBy position), ⟨position + taken.length, left⟩)
  progress : ∀ error, Template.ofTokens tokens = .error error → taken ≠ []
  complete : ∀ template, Template.ofTokens tokens = .ok template → left = []

theorem finish_mapError (p : Progress) (distance : Nat) :
    p.finish.mapError (·.movedBy distance) = p.finish := by
  obtain ⟨body, blocks⟩ := p
  cases blocks with
  | nil => rfl
  | cons block outer => rfl

/-- An error about the token at which the run stops. -/
theorem takes_of_stop {front after : List Token} {token : Token} {final : Progress}
    (hreads : Reads (token :: after) .start front final) (error : SyntaxError)
    (hstop : ∀ position, run final position (token :: after) =
      (.error (error.movedBy position), ⟨position + 1, after⟩)) :
    Takes (front ++ token :: after) (front ++ [token]) after where
  split := by simp
  read := by
    intro position
    show run .start position (front ++ token :: after) = _
    rw [ofTokens_of_reads hreads, hreads.run, hstop, hstop]
    rw [← SyntaxError.movedBy_movedBy, List.length_append, Nat.add_assoc]
    rfl
  progress := by simp
  complete := by
    intro template hok
    rw [ofTokens_of_reads hreads, hstop] at hok
    cases hok

theorem exists_takes (tokens : List Token) : ∃ taken left, Takes tokens taken left := by
  obtain ⟨front, rest, final, rfl, hreads, hstops⟩ := exists_reads .start tokens
  cases hstops with
  | atEnd =>
      refine ⟨front, [], rfl, ?_, ?_, fun _ _ => rfl⟩
      · intro position
        show run .start position (front ++ []) = _
        rw [ofTokens_of_reads hreads, hreads.run, run_nil, run_nil, finish_mapError]
      · rintro error herror rfl
        -- before the first token no block is open
        rw [ofTokens_of_reads hreads, run_nil] at herror
        cases hreads
        cases herror
  | @misplaced token after hstep =>
      refine ⟨_, _, takes_of_stop hreads (.unexpectedToken token after.head?) ?_⟩
      exact fun position => run_misplaced hstep position after
  | @noCondition _ token after hstep hclause =>
      refine ⟨_, _, takes_of_stop hreads (.invalidCondition (location token after) 1) ?_⟩
      intro position
      rw [run_asks_none hstep hclause, SyntaxError.movedBy, Nat.add_comm 1 position]

theorem read_answer (reader : Reader) :
    reader.read.1 = (Template.ofTokens reader.rest).mapError (·.movedBy reader.position) := by
  obtain ⟨taken, left, htakes⟩ := exists_takes reader.rest
  rw [htakes.read reader.position]

theorem exists_of_read_error {reader : Reader} {error : SyntaxError}
    (h : reader.read.1 = .error error) :
    ∃ start, Template.ofTokens reader.rest = .error start ∧
      error = start.movedBy reader.position := by
  rw [read_answer] at h
  cases hfresh : Template.ofTokens reader.rest with
  | error start =>
      rw [hfresh] at h
      cases h
      exact ⟨start, rfl, rfl⟩
  | ok template =>
      rw [hfresh] at h
      cases h

theorem ofTokens_of_read_ok {reader : Reader} {template : Template}
    (h : reader.read.1 = .ok template) : Template.ofTokens reader.rest = .ok template := by
  rw [read_answer] at h
  cases hfresh : Template.ofTokens reader.rest with
  | error start =>
      rw [hfresh] at h
      cases h
  | ok template' =>
      rw [hfresh] at h
      exact h

/-- Every error takes a token away. -/
theorem position_lt_of_read_error {reader : Reader} {error : SyntaxError}
    (h : reader.read.1 = .error error) : reader.position < reader.read.2.position := by
  obtain ⟨start, hfresh, -⟩ := exists_of_read_error h
  obtain ⟨taken, left, htakes⟩ := exists_takes reader.rest
  have hpos := List.length_pos_iff.mpr (htakes.progress start hfresh)
  rw [htakes.read reader.position]
  show reader.position < reader.position + taken.length
  omega

theorem position_le_read (reader : Reader) : reader.position ≤ reader.read.2.position := by
  obtain ⟨taken, left, htakes⟩ := exists_takes reader.rest
  rw [htakes.read reader.position]
  exact Nat.le_add_right _ _

/-- A template takes all tokens that are left. -/
theorem rest_of_read_ok {reader : Reader} {template : Template}
    (h : reader.read.1 = .ok template) : reader.read.2.rest = [] := by
  obtain ⟨taken, left, htakes⟩ := exists_takes reader.rest
  rw [htakes.read reader.position]
  exact htakes.complete template (ofTokens_of_read_ok h)

theorem read_of_rest_nil {reader : Reader} (h : reader.rest = []) :
    reader.read = (.ok [], reader) := by
  obtain ⟨position, rest⟩ := reader
  subst h
  exact run_nil .start position

/-! ## Where a reader can be -/

/-- The reader has taken a front of the tokens and nothing else. -/
def StandsIn (tokens : List Token) (reader : Reader) : Prop :=
  ∃ before, tokens = before ++ reader.rest ∧ reader.position = before.length

namespace StandsIn

variable {tokens : List Token} {reader : Reader}

theorem ofTokens (tokens : List Token) : (Reader.ofTokens tokens).StandsIn tokens :=
  ⟨[], rfl, rfl⟩

theorem rest_eq (h : reader.StandsIn tokens) : reader.rest = tokens.drop reader.position := by
  obtain ⟨before, htokens, hposition⟩ := h
  rw [htokens, hposition, List.drop_left]

theorem position_le (h : reader.StandsIn tokens) : reader.position ≤ tokens.length := by
  obtain ⟨before, htokens, hposition⟩ := h
  rw [htokens, hposition, List.length_append]
  exact Nat.le_add_right _ _

theorem read (h : reader.StandsIn tokens) : reader.read.2.StandsIn tokens := by
  obtain ⟨before, htokens, hposition⟩ := h
  obtain ⟨taken, left, htakes⟩ := exists_takes reader.rest
  rw [htakes.read reader.position]
  refine ⟨before ++ taken, ?_, ?_⟩
  · rw [List.append_assoc, ← htakes.split]
    exact htokens
  · rw [hposition, List.length_append]

end StandsIn

/-! ## The place that an error shows -/

theorem location_of_ofTokens {tokens : List Token} {location : Text} {position : Nat}
    (h : Template.ofTokens tokens = .error (.invalidCondition location position)) :
    0 < position ∧ location = locationAt tokens position := by
  obtain ⟨front, rest, final, rfl, hreads, hstops⟩ := exists_reads .start tokens
  rw [ofTokens_of_reads hreads] at h
  cases hstops with
  | atEnd =>
      rw [run_nil] at h
      obtain ⟨_, _, _, -, herror⟩ := Progress.finish_eq_error h
      cases herror
  | misplaced after hstep =>
      rw [run_misplaced hstep] at h
      cases h
  | @noCondition _ token after hstep hclause =>
      rw [run_asks_none hstep hclause] at h
      cases h
      exact ⟨Nat.succ_pos _, location_eq_locationAt front after token⟩

/-- Only one token before the position is shown, so none from before a call. -/
theorem locationAt_append (before tokens : List Token) {position : Nat} (h : 0 < position) :
    locationAt (before ++ tokens) (position + before.length) = locationAt tokens position := by
  obtain ⟨n, rfl⟩ := Nat.exists_eq_add_of_le' h
  have hlater : n + 1 + before.length + 2 = before.length + (n + 1 + 2) := by omega
  have hearlier : n + 1 + before.length - 1 = before.length + n := by omega
  rw [locationAt, locationAt, ← List.take_eq_take_min, ← List.take_eq_take_min, hlater,
    hearlier, List.take_length_add_append, List.drop_length_add_append, Nat.add_sub_cancel]

theorem StandsIn.location {tokens : List Token} {reader : Reader} (h : reader.StandsIn tokens)
    {location : Text} {position : Nat}
    (herror : reader.read.1 = .error (.invalidCondition location position)) :
    reader.position < position ∧ location = locationAt tokens position := by
  obtain ⟨error, hfresh, hmoved⟩ := exists_of_read_error herror
  obtain ⟨start, rfl, rfl⟩ := SyntaxError.eq_of_movedBy hmoved.symm
  obtain ⟨hstart, rfl⟩ := location_of_ofTokens hfresh
  obtain ⟨before, htokens, hposition⟩ := h
  refine ⟨by omega, ?_⟩
  rw [htokens, hposition, locationAt_append before reader.rest hstart]

/-! ## Call after call -/

/-- The reader after so many calls. -/
def after (reader : Reader) (calls : Nat) : Reader := (fun reader => reader.read.2)^[calls] reader

theorem after_succ (reader : Reader) (calls : Nat) :
    reader.after (calls + 1) = (reader.after calls).read.2 :=
  Function.iterate_succ_apply' _ calls reader

theorem StandsIn.after {tokens : List Token} {reader : Reader} (h : reader.StandsIn tokens)
    (calls : Nat) : (reader.after calls).StandsIn tokens := by
  induction calls with
  | zero => exact h
  | succ calls ih =>
      rw [after_succ]
      exact ih.read

/-- The number of errors among the first calls. -/
def errors (reader : Reader) (calls : Nat) : Nat :=
  (List.range calls).countP fun call => !(reader.after call).read.1.isOk

theorem errors_succ_of_ok {reader : Reader} {calls : Nat} {template : Template}
    (h : (reader.after calls).read.1 = .ok template) :
    reader.errors (calls + 1) = reader.errors calls := by
  simp [errors, List.range_succ, h, Except.isOk, Except.toBool]

theorem errors_succ_of_error {reader : Reader} {calls : Nat} {error : SyntaxError}
    (h : (reader.after calls).read.1 = .error error) :
    reader.errors (calls + 1) = reader.errors calls + 1 := by
  simp [errors, List.range_succ, h, Except.isOk, Except.toBool]

/-- Every error so far has taken a token away. -/
theorem errors_le_position (reader : Reader) (calls : Nat) :
    reader.errors calls ≤ (reader.after calls).position := by
  induction calls with
  | zero => exact Nat.zero_le _
  | succ calls ih =>
      rw [after_succ]
      cases hread : (reader.after calls).read.1 with
      | ok template =>
          rw [errors_succ_of_ok hread]
          exact Nat.le_trans ih (position_le_read _)
      | error error =>
          have hlt := position_lt_of_read_error hread
          rw [errors_succ_of_error hread]
          omega

theorem rest_after_of_ok {reader : Reader} {calls : Nat} {template : Template}
    (h : (reader.after calls).read.1 = .ok template) {later : Nat} (hlater : calls < later) :
    (reader.after later).rest = [] := by
  induction hlater with
  | refl =>
      rw [after_succ]
      exact rest_of_read_ok h
  | step hlater ih =>
      rw [after_succ, read_of_rest_nil ih]
      exact ih

theorem errors_of_error {reader : Reader} {calls : Nat}
    (h : ∀ call < calls, ∃ error, (reader.after call).read.1 = .error error) :
    reader.errors calls = calls := by
  induction calls with
  | zero => rfl
  | succ calls ih =>
      obtain ⟨error, hread⟩ := h calls (Nat.lt_succ_self calls)
      rw [errors_succ_of_error hread, ih fun call hcall => h call (Nat.lt_succ_of_lt hcall)]

/-- The tokens are used up before the errors are more than they. -/
theorem exists_ok_after (tokens : List Token) :
    ∃ calls ≤ tokens.length, ∃ template,
      ((ofTokens tokens).after calls).read.1 = .ok template := by
  apply Classical.byContradiction
  intro hnone
  have herror : ∀ call < tokens.length + 1,
      ∃ error, ((ofTokens tokens).after call).read.1 = .error error := by
    intro call hcall
    cases hread : ((ofTokens tokens).after call).read.1 with
    | ok template => exact absurd ⟨call, Nat.le_of_lt_succ hcall, template, hread⟩ hnone
    | error error => exact ⟨error, rfl⟩
  have hcount := errors_of_error herror
  have hposition := errors_le_position (ofTokens tokens) (tokens.length + 1)
  have hinside := ((StandsIn.ofTokens tokens).after (tokens.length + 1)).position_le
  omega

/-! ## The whole sequence of calls -/

/-- The next call reads the tokens that are left as a reader of their own would. -/
structure Resumes (tokens : List Token) (reader : Reader) : Prop where
  inside : reader.position ≤ tokens.length
  rest : reader.rest = tokens.drop reader.position
  answer : reader.read.1 =
    (Template.ofTokens (tokens.drop reader.position)).mapError (·.movedBy reader.position)
  advances : ∀ error, reader.read.1 = .error error →
    reader.position < reader.read.2.position ∧ reader.read.2.position ≤ tokens.length
  drains : ∀ template, reader.read.1 = .ok template → reader.read.2 = ⟨tokens.length, []⟩
  location : ∀ location position, reader.read.1 = .error (.invalidCondition location position) →
    reader.position < position ∧ location = locationAt tokens position

theorem StandsIn.eq_of_rest_nil {tokens : List Token} {reader : Reader}
    (h : reader.StandsIn tokens) (hrest : reader.rest = []) : reader = ⟨tokens.length, []⟩ := by
  obtain ⟨position, rest⟩ := reader
  obtain ⟨before, htokens, hposition⟩ := h
  subst hrest
  rw [htokens, List.append_nil, ← hposition]

theorem StandsIn.resumes {tokens : List Token} {reader : Reader} (h : reader.StandsIn tokens) :
    reader.Resumes tokens where
  inside := h.position_le
  rest := h.rest_eq
  answer := by
    rw [← h.rest_eq]
    exact read_answer reader
  advances := fun _ herror => ⟨position_lt_of_read_error herror, h.read.position_le⟩
  drains := fun _ hok => h.read.eq_of_rest_nil (rest_of_read_ok hok)
  location := fun _ _ herror => h.location herror

/-- Called again and again, a reader goes on from where it stopped, and each call answers as
a reader of the tokens that are left. There are no more errors than tokens; then a template
is read, and after it only the empty one. -/
theorem after_resumes (tokens : List Token) :
    (∀ calls, ((ofTokens tokens).after calls).Resumes tokens) ∧
    (∀ calls, (ofTokens tokens).errors calls ≤ tokens.length) ∧
    (∃ calls ≤ tokens.length, ∃ template,
      ((ofTokens tokens).after calls).read.1 = .ok template) ∧
    ∀ calls template, ((ofTokens tokens).after calls).read.1 = .ok template →
      ∀ later, calls < later → ((ofTokens tokens).after later).read.1 = .ok [] := by
  have hstands : ∀ calls, ((ofTokens tokens).after calls).StandsIn tokens :=
    (StandsIn.ofTokens tokens).after
  refine ⟨fun calls => (hstands calls).resumes, ?_, exists_ok_after tokens, ?_⟩
  · intro calls
    exact Nat.le_trans (errors_le_position _ calls) (hstands calls).position_le
  · intro calls template hok later hlater
    rw [read_of_rest_nil (rest_after_of_ok hok hlater)]

/-- A tag without a block, a tag without a condition, and a block that is left open. -/
def brokenTokens : List Token :=
  [.key .endIfTag, .key .ifTag, .key .notOp, .raw ['x'], .key .ifTag, .flag ['a'], .raw ['y']]

/-- The second error counts its position from the first token; the fifth call is the first
without an error. -/
theorem after_brokenTokens :
    ((ofTokens brokenTokens).after 1).read.1 =
        .error (.invalidCondition (locationAt brokenTokens 2) 2) ∧
      (ofTokens brokenTokens).errors 9 ≤ brokenTokens.length ∧
      ((ofTokens brokenTokens).after 4).read.1 = .ok [] ∧
      ((ofTokens brokenTokens).after 8).read.1 = .ok [] := by
  obtain ⟨hresumes, herrors, -, hlater⟩ := after_resumes brokenTokens
  have hsecond : ((ofTokens brokenTokens).after 1).read.1 =
      .error (.invalidCondition "#if NOT \"x\"".toList 2) := by with_unfolding_all rfl
  have hfifth : ((ofTokens brokenTokens).after 4).read.1 = .ok [] := by with_unfolding_all rfl
  refine ⟨?_, herrors 9, hfifth, hlater 4 [] hfifth 8 (by decide)⟩
  rw [hsecond, ← ((hresumes 1).location _ _ hsecond).2]

end Reader

end Stencil
