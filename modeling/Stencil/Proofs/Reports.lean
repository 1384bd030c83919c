import Mathlib.Data.List.Induction
import Stencil.Proofs.Declaring
import Stencil.Proofs.Sources

/-!
# What is reported while a template is compiled

The events of compiling are an account of its results. Each token that is no literal text is
reported with the place where it ends, then the size of the text and the number of its tokens;
only if the template is read come its statements, the names that turned from text into flags,
and the variables. Which names these are and in which order is said by the uses alone.
-/

namespace Stencil

open Scanner

/-! ## Tokens and their ends -/

def Event.offset? : Event → Option Nat
  | lexed _ offset => some offset
  | _ => none

/-- One event for each token that is no literal text, with the place up to which the text is
read after it. -/
def lexedReport (t : Text) : List Event :=
  (ofText t).tokens.zipIdx.filterMap fun (token, n) =>
    if token.isRaw then none else some (.lexed token (cursor t (n + 1)))

theorem bytes_after_le (n : Nat) (s : Scanner) : (s.after n).rest.bytes ≤ s.rest.bytes := by
  obtain ⟨before, hrest⟩ := exists_rest_eq_append (n := n) s
  rw [hrest, Text.bytes_append]
  omega

/-- The bytes of the lexemes add up to what is read. -/
theorem lexedEvents_lexemes (s : Scanner) : ∀ offset : Nat, lexedEvents offset s.lexemes =
    s.tokens.zipIdx.filterMap fun (token, n) =>
      if token.isRaw then none
      else some (.lexed token (offset + (s.rest.bytes - (s.after (n + 1)).rest.bytes))) := by
  rw [tokens]
  fun_induction lexemes s with
  | case1 s hnext =>
      intro offset
      rfl
  | case2 s lexeme s' hnext ih =>
      intro offset
      have hbytes : s.rest.bytes = lexeme.skipped.bytes + lexeme.source.bytes + s'.rest.bytes := by
        rw [(next?_eq_append hnext).1, Text.bytes_append, Text.bytes_append]
      have hplace : ∀ n, offset + (s.rest.bytes - (s.after (n + 1)).rest.bytes) =
          offset + lexeme.skipped.bytes + lexeme.source.bytes +
            (s'.rest.bytes - (s'.after n).rest.bytes) := by
        intro n
        have hle := bytes_after_le n s'
        rw [after_succ hnext]
        omega
      have hzero : s'.after 0 = s' := rfl
      rw [List.map_cons, List.zipIdx_cons', List.filterMap_cons, List.filterMap_map, lexedEvents,
        ih]
      simp only [hplace, hzero, Nat.sub_self, Nat.add_zero, Function.comp_def, Prod.map]
      cases lexeme.token.isRaw <;> rfl

theorem lexedEvents_ofText (t : Text) : lexedEvents 0 (ofText t).lexemes = lexedReport t := by
  rw [lexedEvents_lexemes, lexedReport]
  simp only [Nat.zero_add]
  rfl

theorem mem_lexedReport {t : Text} {event : Event} (h : event ∈ lexedReport t) :
    ∃ token n, event = .lexed token (cursor t (n + 1)) := by
  obtain ⟨⟨token, n⟩, -, heq⟩ := List.mem_filterMap.mp h
  simp only at heq
  split at heq
  · cases heq
  · exact ⟨token, n, (Option.some.inj heq).symm⟩

theorem message_lexed (token : Token) (offset : Nat) : (Event.lexed token offset).message =
    "lexed " ++ String.ofList token.display ++ " at " ++ toString offset := rfl

/-- The message shows the token and its end. -/
theorem messages_lexedReport (t : Text) : (lexedReport t).map Event.message =
    (ofText t).tokens.zipIdx.filterMap fun (token, n) =>
      if token.isRaw then none
      else some ("lexed " ++ String.ofList token.display ++ " at " ++ toString (cursor t (n + 1))) := by
  rw [lexedReport, List.map_filterMap]
  congr 1
  funext ⟨token, n⟩
  cases hraw : token.isRaw with
  | true => simp only [hraw, if_true, Option.map_none]
  | false =>
      simp only [hraw, Bool.false_eq_true, if_false, Option.map_some]
      exact congrArg some (message_lexed token _)

theorem offset_le_of_mem {t : Text} {offset : Nat}
    (h : offset ∈ (lexedReport t).filterMap Event.offset?) : offset ≤ t.bytes := by
  obtain ⟨event, hevent, hoffset⟩ := List.mem_filterMap.mp h
  obtain ⟨token, n, rfl⟩ := mem_lexedReport hevent
  obtain rfl := Option.some.inj hoffset
  exact Nat.sub_le _ _

/-- Every end lies behind the place where the lexemes begin, and they go up. -/
theorem offsets_lexedEvents {lexemes : List Lexeme} (h : ∀ lexeme ∈ lexemes, lexeme.source ≠ []) :
    ∀ offset : Nat,
      (∀ stop ∈ (lexedEvents offset lexemes).filterMap Event.offset?, offset < stop) ∧
        ((lexedEvents offset lexemes).filterMap Event.offset?).Pairwise (· < ·) := by
  induction lexemes with
  | nil => simp [lexedEvents]
  | cons lexeme lexemes ih =>
      intro offset
      obtain ⟨hsource, hlater⟩ := List.forall_mem_cons.mp h
      have hpos := Text.bytes_pos hsource
      obtain ⟨hmore, hpairwise⟩ :=
        ih hlater (offset + lexeme.skipped.bytes + lexeme.source.bytes)
      have hlt : ∀ stop ∈ (lexedEvents (offset + lexeme.skipped.bytes + lexeme.source.bytes)
          lexemes).filterMap Event.offset?, offset < stop := by
        intro stop hstop
        have := hmore stop hstop
        omega
      rw [lexedEvents]
      split
      · exact ⟨hlt, hpairwise⟩
      · simp only [List.filterMap_cons, Event.offset?]
        exact ⟨List.forall_mem_cons.mpr ⟨by omega, hlt⟩, List.pairwise_cons.mpr ⟨hmore, hpairwise⟩⟩

theorem offsets_lexedReport (t : Text) :
    ((lexedReport t).filterMap Event.offset?).Pairwise (· < ·) := by
  rw [← lexedEvents_ofText]
  exact (offsets_lexedEvents (fun _ => source_ne_nil_of_mem) 0).2

/-- What is reported of the tokens is what is read: up to the end of each token its source is
read, the message shows the token and its end, and the ends go up through the text. -/
structure ReportsTokens (t : Text) : Prop where
  covers : ∀ (n : Nat) (h : n < (ofText t).tokens.length), Covers t n (ofText t).tokens[n]
  messages : (lexedReport t).map Event.message =
    (ofText t).tokens.zipIdx.filterMap fun (token, n) =>
      if token.isRaw then none
      else some ("lexed " ++ String.ofList token.display ++ " at " ++ toString (cursor t (n + 1)))
  ascending : ((lexedReport t).filterMap Event.offset?).Pairwise (· < ·)
  bounded : ∀ offset ∈ (lexedReport t).filterMap Event.offset?, offset ≤ t.bytes

theorem reportsTokens (t : Text) : ReportsTokens t where
  covers := fun _ h => (cursor_step (List.getElem?_eq_getElem h)).2.2
  messages := messages_lexedReport t
  ascending := offsets_lexedReport t
  bounded := fun _ => offset_le_of_mem

/-! ## Names that turn into flags -/

namespace Declarations

theorem text_mem_kept_iff {uses : List Variable} {name : Text} (h : .flag name ∉ uses) :
    .text name ∈ kept uses ↔ name ∈ uses.map Variable.name := by
  rw [← mem_names_kept]
  constructor
  · exact fun htext => List.mem_map_of_mem htext
  · intro hname
    obtain ⟨v, hv, hname⟩ := List.mem_map.mp hname
    cases v with
    | text other =>
        obtain rfl : other = name := hname
        exact hv
    | flag other =>
        obtain rfl : other = name := hname
        exact absurd (flag_mem_kept.mp hv) h

/-- The variable is the first flag of its name, and there is a text of that name. -/
def Turns (uses : List Variable) (v : Variable) : Prop :=
  v = .flag v.name ∧ v ∉ uses ∧ v.name ∈ uses.map Variable.name

instance (uses : List Variable) (v : Variable) : Decidable (Turns uses v) :=
  inferInstanceAs (Decidable (_ ∧ _ ∧ _))

/-- Only a variable that turns its name from text into a flag promotes it. -/
theorem promoted_snoc (uses : List Variable) (v : Variable) :
    (ofUses (uses ++ [v])).promoted =
      (ofUses uses).promoted ++ if Turns uses v then [v.name] else [] := by
  rw [ofUses_snoc]
  cases v with
  | text name => simp [declare, Turns, Variable.name, apply_ite]
  | flag name =>
      by_cases hflag : .flag name ∈ uses
      · simp [declare, declared_ofUses, flag_mem_kept, Turns, hflag]
      by_cases hname : name ∈ uses.map Variable.name
      · have hturns : Turns uses (.flag name) := ⟨rfl, hflag, hname⟩
        have htext := (text_mem_kept_iff hflag).mpr hname
        rw [if_pos hturns]
        simp [declare, declared_ofUses, flag_mem_kept, hflag, htext, Variable.name]
      · have htext : .text name ∉ kept uses := fun h => hname ((text_mem_kept_iff hflag).mp h)
        rw [if_neg fun hturns : Turns uses (.flag name) => hname hturns.2.2, List.append_nil]
        simp [declare, declared_ofUses, flag_mem_kept, hflag, htext]

theorem mem_promoted_snoc {uses : List Variable} {v : Variable} {name : Text} :
    name ∈ (ofUses (uses ++ [v])).promoted ↔ name ∈ (ofUses uses).promoted ∨
      v = .flag name ∧ .flag name ∉ uses ∧ name ∈ uses.map Variable.name := by
  rw [promoted_snoc, List.mem_append]
  apply or_congr_right
  constructor
  · intro h
    split at h
    · next hturns =>
        obtain rfl := List.mem_singleton.mp h
        obtain ⟨hflag, hnew, hname⟩ := hturns
        exact ⟨hflag, hflag ▸ hnew, hname⟩
    · cases h
  · rintro ⟨rfl, hturns⟩
    have hturns : Turns uses (.flag name) := ⟨rfl, hturns⟩
    rw [if_pos hturns]
    exact List.mem_singleton_self name

/-- A name that no condition tested yet was first used as text. -/
theorem find?_of_untested {uses : List Variable} {name : Text}
    (hname : name ∈ uses.map Variable.name) (hflag : .flag name ∉ uses) :
    uses.find? (·.name = name) = some (.text name) := by
  obtain ⟨w, hw, heq⟩ := List.mem_map.mp hname
  have hsome : (uses.find? (·.name = name)).isSome = true :=
    List.find?_isSome.mpr ⟨w, hw, by simpa using heq⟩
  obtain ⟨v, hv⟩ := Option.isSome_iff_exists.mp hsome
  have hmem := List.mem_of_find?_eq_some hv
  have hfound := List.find?_some hv
  obtain rfl : v.name = name := of_decide_eq_true hfound
  cases v with
  | text name => exact hv
  | flag name => exact absurd hmem hflag

theorem find?_of_unused {uses : List Variable} {name : Text}
    (h : name ∉ uses.map Variable.name) : uses.find? (·.name = name) = none := by
  rw [List.find?_eq_none]
  intro v hv heq
  obtain rfl : v.name = name := by simpa using heq
  exact h (List.mem_map_of_mem hv)

theorem mem_promoted {uses : List Variable} {name : Text} :
    name ∈ (ofUses uses).promoted ↔
      uses.find? (·.name = name) = some (.text name) ∧ .flag name ∈ uses := by
  induction uses using List.reverseRecOn with
  | nil => simp [ofUses, empty]
  | append_singleton uses v ih =>
      rw [mem_promoted_snoc, ih, List.find?_append, List.mem_append, List.mem_singleton]
      by_cases hname : name ∈ uses.map Variable.name
      · by_cases hflag : .flag name ∈ uses
        · have hsome : uses.find? (·.name = name) ≠ none := by
            rw [ne_eq, List.find?_eq_none]
            exact fun h => h _ hflag (by simp [Variable.name])
          obtain ⟨w, hw⟩ := Option.ne_none_iff_exists'.mp hsome
          simp [hw, hflag]
        · rw [find?_of_untested hname hflag]
          simp [hflag, hname, eq_comm]
      · have hflag : .flag name ∉ uses := fun h => hname (List.mem_map_of_mem h)
        rw [find?_of_unused hname, Option.none_or]
        constructor
        · rintro (⟨h, -⟩ | ⟨-, -, h⟩)
          · cases h
          · exact absurd h hname
        · rintro ⟨htext, h | rfl⟩
          · exact absurd h hflag
          · cases List.mem_singleton.mp (List.mem_of_find?_eq_some htext)

theorem pairwise_promoted (uses : List Variable) :
    (ofUses uses).promoted.Pairwise fun a b =>
      uses.idxOf (.flag a) < uses.idxOf (.flag b) := by
  induction uses using List.reverseRecOn with
  | nil => exact List.Pairwise.nil
  | append_singleton uses v ih =>
      have hsame : ∀ a ∈ (ofUses uses).promoted,
          (uses ++ [v]).idxOf (.flag a) = uses.idxOf (.flag a) ∧
            uses.idxOf (.flag a) < uses.length := by
        intro a ha
        have hflag := (mem_promoted.mp ha).2
        exact ⟨List.idxOf_append_of_mem hflag, List.idxOf_lt_length_of_mem hflag⟩
      rw [promoted_snoc, List.pairwise_append]
      refine ⟨?_, ?_, ?_⟩
      · refine ih.imp_of_mem ?_
        intro a b ha hb hlt
        rwa [(hsame a ha).1, (hsame b hb).1]
      · split
        · exact List.pairwise_singleton _ _
        · exact List.Pairwise.nil
      · intro a ha b hb
        split at hb
        -- the flag that turns its name stands behind all flags before it
        · next hturns =>
            obtain rfl := List.mem_singleton.mp hb
            rw [← hturns.1, (hsame a ha).1, List.idxOf_append_of_notMem hturns.2.1]
            exact Nat.lt_of_lt_of_le (hsame a ha).2 (Nat.le_add_right _ _)
        · cases hb

end Declarations

/-- These are the names that are first used as text and also tested by a condition, each of
them once, by the first condition that tests them. -/
structure Promotes (template : Template) (names : List Text) : Prop where
  mem_iff : ∀ name, name ∈ names ↔ template.uses.find? (·.name = name) = some (.text name) ∧
    ∃ c ∈ template.conditions, name ∈ c.flags
  once : names.Nodup
  ordered : names.Pairwise fun name later =>
    template.uses.idxOf (.flag name) < template.uses.idxOf (.flag later)

theorem promotes_promoted (template : Template) :
    Promotes template template.declarations.promoted where
  mem_iff := fun name => by rw [← flag_mem_uses_iff]; exact Declarations.mem_promoted
  once := (Declarations.pairwise_promoted template.uses).imp fun hlt heq => by simp [heq] at hlt
  ordered := Declarations.pairwise_promoted template.uses

/-! ## The whole journal -/

namespace Logged

theorem events_tokenize (t : Text) : (Logged.tokenize t).events =
    lexedReport t ++ [.tokenized t.bytes (Stencil.tokenize t).length] := by
  rw [← lexedEvents_ofText]
  rfl

theorem events_parse_error {t : Text} {error : SyntaxError} (h : Template.ofText t = .error error) :
    (Logged.parse t).events =
      lexedReport t ++ [.tokenized t.bytes (Stencil.tokenize t).length] := by
  have hread : Template.ofTokens (Stencil.tokenize t) = .error error := h
  simp [Logged.parse, value_tokenize, hread, events_tokenize]

theorem events_parse_ok {t : Text} {template : Template} (h : Template.ofText t = .ok template) :
    (Logged.parse t).events =
      lexedReport t ++ [.tokenized t.bytes (Stencil.tokenize t).length] ++
        [.parsed template.length] := by
  have hread : Template.ofTokens (Stencil.tokenize t) = .ok template := h
  simp [Logged.parse, value_tokenize, hread, events_tokenize]

theorem events_compile_error {t : Text} {error : SyntaxError}
    (h : Template.ofText t = .error error) :
    (Logged.compile t).events =
      lexedReport t ++ [.tokenized t.bytes (Stencil.tokenize t).length] := by
  simp [Logged.compile, value_parse, h, events_parse_error h]

theorem events_compile_ok {t : Text} {template : Template} (h : Template.ofText t = .ok template) :
    (Logged.compile t).events =
      lexedReport t ++ [.tokenized t.bytes (Stencil.tokenize t).length] ++
        (.parsed template.length :: (template.declarations.promoted.map .promoted ++
          [.compiled template.declared.length])) := by
  simp [Logged.compile, value_parse, h, events_parse_ok h, Template.declared]

end Logged

theorem ofText_of_compile_error {t : Text} {error : SyntaxError} (h : compile t = .error error) :
    Template.ofText t = .error error := by
  rw [compile] at h
  cases hread : Template.ofText t with
  | error other =>
      rw [hread] at h
      cases h
      rfl
  | ok template =>
      rw [hread] at h
      cases h

/-- Only the scanner reports on the lower level. -/
theorem level_eq_trace_iff (t : Text) (later : List Event)
    (hlater : ∀ event ∈ later, event.level = .debug) :
    ∀ event ∈ lexedReport t ++ [.tokenized t.bytes (tokenize t).length] ++ later,
      event.level = .trace ↔ event ∈ lexedReport t := by
  intro event hevent
  constructor
  · intro htrace
    rw [List.append_assoc] at hevent
    rcases List.mem_append.mp hevent with hevent | hevent
    · exact hevent
    · rcases List.mem_cons.mp hevent with rfl | hevent
      · cases htrace
      · rw [hlater event hevent] at htrace
        cases htrace
  · intro hreport
    obtain ⟨token, n, rfl⟩ := mem_lexedReport hreport
    rfl

/-- The events of compiling, in order: an end for each token that is no literal text, the size
of the text and the number of its arranged tokens, and then nothing if the text is not read.
Else come the number of statements, the names that turn into flags and the number of
variables. -/
theorem compile_reports (t : Text) : ∃ later,
    (Logged.compile t).events =
      lexedReport t ++ [.tokenized t.bytes (tokenize t).length] ++ later ∧
    (∀ error, compile t = .error error → later = []) ∧
    (∀ template declared, compile t = .ok ⟨template, declared⟩ →
      ∃ names, Promotes template names ∧
        later = .parsed template.length ::
          (names.map .promoted ++ [.compiled declared.length])) ∧
    (∀ event ∈ (Logged.compile t).events, event.level = .trace ↔ event ∈ lexedReport t) ∧
    ReportsTokens t := by
  cases hread : Template.ofText t with
  | error error =>
      have hevents := Logged.events_compile_error hread
      refine ⟨[], by rw [hevents, List.append_nil], fun _ _ => rfl, ?_, ?_, reportsTokens t⟩
      · intro template declared hcompile
        rw [(ofText_of_compile hcompile).1] at hread
        cases hread
      · rw [hevents]
        simpa using level_eq_trace_iff t [] (by simp)
  | ok template =>
      have hevents := Logged.events_compile_ok hread
      refine ⟨_, hevents, ?_, ?_, ?_, reportsTokens t⟩
      · intro error hcompile
        rw [ofText_of_compile_error hcompile] at hread
        cases hread
      · intro other declared hcompile
        obtain ⟨hother, hdeclared⟩ := ofText_of_compile hcompile
        obtain rfl : template = other := Except.ok.inj (hread.symm.trans hother)
        obtain rfl : declared = template.declared := hdeclared
        exact ⟨_, promotes_promoted template, rfl⟩
      · rw [hevents]
        refine level_eq_trace_iff t _ ?_
        intro event hevent
        simp only [List.mem_cons, List.mem_append, List.mem_map, List.not_mem_nil, or_false]
          at hevent
        rcases hevent with rfl | ⟨name, -, rfl⟩ | rfl <;> rfl

/-- A letter of two bytes, noise in a condition, and a name that turns into a flag. -/
def turningText : Text :=
  ['é', '{', '{', 'a', '}', '}', '#', 'i', 'f', ' ', 'x', '{', '{', 'a', '}', '}', '#', 't',
    'h', 'e', 'n', '#', 'e', 'n', 'd', 'i', 'f']

theorem reports_turningText :
    let template : Template := [.raw ['é'], .placeholder ['a'], .ifThen (.flag ['a']) []]
    compile turningText = .ok ⟨template, [.flag ['a']]⟩ ∧
    ∃ names, Promotes template names ∧ (Logged.compile turningText).events =
      lexedReport turningText ++ [.tokenized turningText.bytes (tokenize turningText).length] ++
        (.parsed template.length :: (names.map .promoted ++
          [.compiled [Variable.flag ['a']].length])) := by
  intro template
  have hcompile : compile turningText = .ok ⟨template, [.flag ['a']]⟩ := by
    with_unfolding_all rfl
  obtain ⟨later, hevents, -, hok, -⟩ := compile_reports turningText
  obtain ⟨names, hnames, hlater⟩ := hok template _ hcompile
  rw [hlater] at hevents
  exact ⟨hcompile, names, hnames, hevents⟩

end Stencil
