import Mathlib.Data.List.Induction
import Mathlib.Data.List.Nodup
import Stencil.Proofs.Anchoring

/-!
# Declared variables

Of the uses of a name one is kept: its first use as a flag, or its first use if it is never
a flag. What a template declares are the uses that are kept, in their order. Declaring one
use after the other comes to the same, and the uses of a compiled template are its tokens.
-/

namespace Stencil

/-! ## The uses that are kept -/

/-- Where the use of the name stands that is kept. -/
def keptAt (uses : List Variable) (name : Text) : Nat :=
  if .flag name ∈ uses then uses.idxOf (.flag name) else uses.findIdx (·.name = name)

def kept (uses : List Variable) : List Variable :=
  (uses.zipIdx.filter fun (v, i) => i = keptAt uses v.name).map Prod.fst

/-- The flag counts, though the text comes first, and `c` keeps its first use. -/
example : kept [.text ['a'], .text ['c'], .flag ['a'], .text ['a'], .text ['c']] =
    [.text ['c'], .flag ['a']] := by decide

theorem exists_keptAt {uses : List Variable} {name : Text}
    (h : name ∈ uses.map Variable.name) :
    ∃ v, uses[keptAt uses name]? = some v ∧ v.name = name ∧
      (.flag name ∈ uses → v = .flag name) := by
  unfold keptAt
  split
  · next hflag => exact ⟨.flag name, List.getElem?_idxOf hflag, rfl, fun _ => rfl⟩
  · next hflag =>
      obtain ⟨w, hw, hname⟩ := List.mem_map.mp h
      have hlt : uses.findIdx (·.name = name) < uses.length :=
        List.findIdx_lt_length_of_exists ⟨w, hw, by simpa using hname⟩
      refine ⟨_, List.getElem?_eq_getElem hlt, ?_, fun hflag' => absurd hflag' hflag⟩
      simpa using List.findIdx_getElem (w := hlt)

theorem keptAt_lt {uses : List Variable} {name : Text} (h : name ∈ uses.map Variable.name) :
    keptAt uses name < uses.length := by
  obtain ⟨v, hv, -⟩ := exists_keptAt h
  exact (List.getElem?_eq_some_iff.mp hv).1

theorem mem_kept {uses : List Variable} {v : Variable} :
    v ∈ kept uses ↔ uses[keptAt uses v.name]? = some v := by
  simp only [kept, List.mem_map, List.mem_filter, List.mem_zipIdx_iff_getElem?,
    decide_eq_true_eq, Prod.exists]
  constructor
  · rintro ⟨w, i, ⟨hget, rfl⟩, rfl⟩
    exact hget
  · intro hget
    exact ⟨v, _, ⟨hget, rfl⟩, rfl⟩

theorem mem_of_mem_kept {uses : List Variable} {v : Variable} (h : v ∈ kept uses) : v ∈ uses :=
  List.mem_of_getElem? (mem_kept.mp h)

theorem mem_names_kept {uses : List Variable} {name : Text} :
    name ∈ (kept uses).map Variable.name ↔ name ∈ uses.map Variable.name := by
  constructor
  · intro h
    obtain ⟨v, hv, rfl⟩ := List.mem_map.mp h
    exact List.mem_map_of_mem (mem_of_mem_kept hv)
  · intro h
    obtain ⟨v, hget, rfl, -⟩ := exists_keptAt h
    exact List.mem_map_of_mem (mem_kept.mpr hget)

theorem flag_mem_kept {uses : List Variable} {name : Text} :
    .flag name ∈ kept uses ↔ .flag name ∈ uses := by
  refine ⟨mem_of_mem_kept, ?_⟩
  intro h
  obtain ⟨v, hget, -, hflag⟩ := exists_keptAt (List.mem_map_of_mem h)
  rw [hflag h] at hget
  exact mem_kept.mpr hget

/-- Uses of one name stand at one place. -/
theorem nodup_names_kept (uses : List Variable) : ((kept uses).map Variable.name).Nodup := by
  have hzip : uses.zipIdx.Nodup := by
    apply List.Nodup.of_map Prod.snd
    rw [List.zipIdx_map_snd]
    exact List.nodup_range'
  rw [kept, List.map_map]
  refine List.Nodup.map_on ?_ (hzip.filter _)
  rintro ⟨v, i⟩ hv ⟨w, j⟩ hw hname
  simp only [List.mem_filter, List.mem_zipIdx_iff_getElem?, decide_eq_true_eq] at hv hw
  obtain ⟨hv, rfl⟩ := hv
  obtain ⟨hw, rfl⟩ := hw
  have hname : v.name = w.name := hname
  rw [hname] at hv
  rw [hname, Option.some.inj (hv.symm.trans hw)]

/-! ## One more use -/

/-- The use that comes next is kept in place of what was kept before: it is the first use
of its name as a flag, or the first of all. -/
def Supersedes (uses : List Variable) (v : Variable) : Prop :=
  v.name ∉ uses.map Variable.name ∨ (v = .flag v.name ∧ .flag v.name ∉ uses)

theorem used_of_not_supersedes {uses : List Variable} {v : Variable}
    (h : ¬ Supersedes uses v) : v.name ∈ uses.map Variable.name := by
  by_contra hunused
  exact h (Or.inl hunused)

theorem keptAt_snoc_of_supersedes {uses : List Variable} {v : Variable}
    (h : Supersedes uses v) : keptAt (uses ++ [v]) v.name = uses.length := by
  cases v with
  | flag name =>
      have hflag : Variable.flag name ∉ uses := by
        rcases h with h | ⟨-, h⟩
        · exact fun hmem => h (List.mem_map_of_mem hmem)
        · exact h
      have hmem : Variable.flag name ∈ uses ++ [.flag name] := by simp
      show keptAt (uses ++ [.flag name]) name = uses.length
      rw [keptAt, if_pos hmem, List.idxOf_append_of_notMem hflag]
      simp
  | text name =>
      have hunused : name ∉ uses.map Variable.name := by
        rcases h with h | ⟨h, -⟩
        · exact h
        · cases h
      have hflag : Variable.flag name ∉ uses ++ [.text name] := by
        intro hmem
        rcases List.mem_append.mp hmem with hmem | hmem
        · exact hunused (List.mem_map_of_mem hmem)
        · simp at hmem
      have hfind : uses.findIdx (·.name = name) = uses.length := by
        refine List.findIdx_eq_length.mpr ?_
        intro w hw
        have hne : w.name ≠ name := by
          rintro rfl
          exact hunused (List.mem_map_of_mem hw)
        simpa using hne
      show keptAt (uses ++ [.text name]) name = uses.length
      rw [keptAt, if_neg hflag, List.findIdx_append, hfind]
      simp [Variable.name, List.findIdx_cons]

theorem keptAt_snoc_of_not_supersedes {uses : List Variable} {v : Variable} {name : Text}
    (hname : name ∈ uses.map Variable.name) (h : v.name = name → ¬ Supersedes uses v) :
    keptAt (uses ++ [v]) name = keptAt uses name := by
  by_cases hflag : .flag name ∈ uses
  · have hmem : .flag name ∈ uses ++ [v] := List.mem_append_left _ hflag
    rw [keptAt, if_pos hmem, keptAt, if_pos hflag, List.idxOf_append_of_mem hflag]
  · have hne : .flag name ≠ v := by
      rintro rfl
      exact h rfl (Or.inr ⟨rfl, hflag⟩)
    have hmem : .flag name ∉ uses ++ [v] := by simp [hflag, hne]
    have hlt := keptAt_lt hname
    rw [keptAt, if_neg hflag] at hlt
    rw [keptAt, if_neg hmem, keptAt, if_neg hflag, List.findIdx_append, if_pos hlt]

theorem kept_snoc_of_not_supersedes {uses : List Variable} {v : Variable}
    (h : ¬ Supersedes uses v) : kept (uses ++ [v]) = kept uses := by
  have hsame : ∀ name, name ∈ uses.map Variable.name →
      keptAt (uses ++ [v]) name = keptAt uses name :=
    fun name hname => keptAt_snoc_of_not_supersedes hname fun _ => h
  have hused := used_of_not_supersedes h
  have hlast : uses.length ≠ keptAt (uses ++ [v]) v.name := by
    rw [hsame _ hused]
    exact Nat.ne_of_gt (keptAt_lt hused)
  have hfilter : uses.zipIdx.filter (fun (w, i) => i = keptAt (uses ++ [v]) w.name) =
      uses.zipIdx.filter (fun (w, i) => i = keptAt uses w.name) := by
    refine List.filter_congr ?_
    rintro ⟨w, i⟩ hw
    have hw : w ∈ uses := List.mem_of_getElem? (List.mem_zipIdx_iff_getElem?.mp hw)
    simp [hsame _ (List.mem_map_of_mem hw)]
  simp [kept, List.zipIdx_append, hfilter, hlast]

/-- Another use of the name goes if it was kept. -/
theorem kept_snoc_of_supersedes {uses : List Variable} {v : Variable} (h : Supersedes uses v) :
    kept (uses ++ [v]) = (kept uses).filter (·.name ≠ v.name) ++ [v] := by
  have hlast := keptAt_snoc_of_supersedes h
  have hfilter : uses.zipIdx.filter (fun (w, i) => i = keptAt (uses ++ [v]) w.name) =
      (uses.zipIdx.filter fun (w, i) => i = keptAt uses w.name).filter
        (fun (w, _) => w.name ≠ v.name) := by
    rw [List.filter_filter]
    refine List.filter_congr ?_
    rintro ⟨w, i⟩ hw
    have hget := List.mem_zipIdx_iff_getElem?.mp hw
    have hlt : i < uses.length := (List.getElem?_eq_some_iff.mp hget).1
    by_cases hname : w.name = v.name
    · simp [hname, hlast, Nat.ne_of_lt hlt]
    · have hw : w.name ∈ uses.map Variable.name :=
        List.mem_map_of_mem (List.mem_of_getElem? hget)
      have hsame := keptAt_snoc_of_not_supersedes hw fun heq => absurd heq.symm hname
      simp [hname, hsame]
  simp [kept, List.zipIdx_append, hfilter, hlast, List.filter_map, Function.comp_def]

/-! ## Declaring keeps the same uses -/

namespace Declarations

theorem ofUses_snoc (uses : List Variable) (v : Variable) :
    ofUses (uses ++ [v]) = (ofUses uses).declare v := by
  rw [ofUses, List.foldl_append]
  rfl

theorem declare_of_not_supersedes {d : Declarations} {uses : List Variable} {v : Variable}
    (hd : d.declared = kept uses) (h : ¬ Supersedes uses v) : d.declare v = d := by
  have hused := used_of_not_supersedes h
  cases v with
  | text name =>
      obtain ⟨w, hw, hname⟩ := List.mem_map.mp (mem_names_kept.mpr hused)
      have hcovered : .text name ∈ d.declared ∨ .flag name ∈ d.declared := by
        rw [hd]
        cases w with
        | text other =>
            obtain rfl : other = name := hname
            exact Or.inl hw
        | flag other =>
            obtain rfl : other = name := hname
            exact Or.inr hw
      simp [declare, hcovered]
  | flag name =>
      have hflag : .flag name ∈ d.declared := by
        rw [hd, flag_mem_kept]
        by_contra hflag
        exact h (Or.inr ⟨rfl, hflag⟩)
      simp [declare, hflag]

theorem declared_declare_of_supersedes {d : Declarations} {uses : List Variable} {v : Variable}
    (hd : d.declared = kept uses) (h : Supersedes uses v) :
    (d.declare v).declared = d.declared.filter (·.name ≠ v.name) ++ [v] := by
  rcases h with hunused | ⟨hv, hflag⟩
  · have hne : ∀ w ∈ d.declared, w.name ≠ v.name := by
      intro w hw heq
      rw [hd] at hw
      exact hunused (heq ▸ mem_names_kept.mp (List.mem_map_of_mem hw))
    have hfilter : d.declared.filter (·.name ≠ v.name) = d.declared :=
      List.filter_eq_self.mpr fun w hw => by simpa using hne w hw
    have hnew : ∀ w : Variable, w.name = v.name → w ∉ d.declared := fun w heq hw => hne w hw heq
    rw [hfilter]
    cases v with
    | text name => simp [declare, hnew (.text name) rfl, hnew (.flag name) rfl]
    | flag name => simp [declare, hnew (.text name) rfl, hnew (.flag name) rfl]
  · obtain ⟨name, rfl⟩ : ∃ name, v = .flag name := ⟨_, hv⟩
    have hflag : .flag name ∉ d.declared := by
      rw [hd, flag_mem_kept]
      exact hflag
    have hnodup : d.declared.Nodup := by
      rw [hd]
      exact List.Nodup.of_map Variable.name (nodup_names_kept uses)
    -- the name can only be declared as text, so erasing that entry drops the name
    have herase : d.declared.erase (.text name) = d.declared.filter (·.name ≠ name) := by
      rw [hnodup.erase_eq_filter]
      refine List.filter_congr ?_
      intro w hw
      cases w with
      | text other =>
          rw [Bool.eq_iff_iff, bne_iff_ne, decide_eq_true_iff]
          simp [Variable.name]
      | flag other =>
          have hother : other ≠ name := by
            rintro rfl
            exact hflag hw
          simp [Variable.name, hother]
    show _ = d.declared.filter (·.name ≠ name) ++ [.flag name]
    rw [← herase]
    by_cases htext : .text name ∈ d.declared
    · simp [declare, hflag, htext]
    · simp [declare, hflag, htext, List.erase_of_not_mem]

theorem declared_ofUses (uses : List Variable) : (ofUses uses).declared = kept uses := by
  induction uses using List.reverseRecOn with
  | nil => rfl
  | append_singleton uses v ih =>
      rw [ofUses_snoc]
      by_cases h : Supersedes uses v
      · rw [declared_declare_of_supersedes ih h, kept_snoc_of_supersedes h, ih]
      · rw [declare_of_not_supersedes ih h, kept_snoc_of_not_supersedes h, ih]

end Declarations

/-! ## Uses in conditions -/

mutual

def Node.conditions : Node → List Condition
  | .raw _ | .placeholder _ => []
  | .ifThen c body => c :: Template.conditions body
  | .ifThenElse c body other => c :: (Template.conditions body ++ Template.conditions other)

/-- The conditions of all blocks, also of those inside branches. -/
def Template.conditions : Template → List Condition
  | [] => []
  | node :: rest => node.conditions ++ Template.conditions rest

end

theorem flag_mem_uses_iff {template : Template} {name : Text} :
    .flag name ∈ template.uses ↔ ∃ c ∈ template.conditions, name ∈ c.flags := by
  induction template using Template.induction with
  | nil => simp [Template.uses, Template.conditions]
  | raw text rest ih =>
      simpa [Template.uses, Node.uses, Template.conditions, Node.conditions] using ih
  | placeholder label rest ih =>
      simpa [Template.uses, Node.uses, Template.conditions, Node.conditions] using ih
  | ifThen c body rest ihbody ih =>
      simp [Template.uses, Node.uses, Template.conditions, Node.conditions, ihbody, ih,
        or_and_right, exists_or]
  | ifThenElse c body other rest ihbody ihother ih =>
      simp [Template.uses, Node.uses, Template.conditions, Node.conditions, ihbody, ihother, ih,
        or_and_right, exists_or]

/-! ## Uses in tokens -/

/-- The use that the token makes of a name. -/
def Token.use? : Token → Option Variable
  | placeholder name => some (.text name)
  | flag name => some (.flag name)
  | raw _ | key _ => none

theorem Condition.uses_tokens (c : Condition) :
    c.tokens.filterMap Token.use? = c.flags.map .flag := by
  induction c with
  | flag name => rfl
  | not inner ih => exact ih
  | brackets inner ih =>
      rw [tokens, List.filterMap_append, List.filterMap_cons_none rfl, ih]
      simp [Token.use?, flags]
  | join op left right ihl ihr =>
      rw [tokens, List.filterMap_append, List.filterMap_cons_none rfl, ihl, ihr, flags,
        List.map_append]

mutual

theorem Grammar.Statements.uses {anchored : Bool} : ∀ {tokens : List Token} {template : Template},
    Statements anchored tokens template →
      template.uses = tokens.filterMap Token.use?
  | _, _, .nil => rfl
  | _, _, .raw _ h => h.uses
  | _, _, .placeholder name h => congrArg (Variable.text name :: ·) h.uses
  | _, _, .block harm h => by
      rw [Template.uses, harm.uses, h.uses, List.filterMap_cons_none rfl, List.filterMap_append]

theorem Grammar.Arm.uses {anchored : Bool} : ∀ {tokens : List Token} {node : Node},
    Arm anchored tokens node → node.uses = tokens.filterMap Token.use?
  | _, _, @Arm.mk _ c opener _ _ _ _ _ hopener hbody hending => by
      have hnone : opener.filterMap Token.use? = [] := by
        cases hopener <;> rfl
      rw [hending.uses, hbody.uses, List.filterMap_append, List.filterMap_append,
        List.filterMap_append, c.uses_tokens, hnone, List.nil_append]

theorem Grammar.Ending.uses {anchored : Bool} : ∀ {c : Condition} {body : Template}
    {tokens : List Token} {node : Node}, Ending anchored c body tokens node →
      node.uses = c.flags.map .flag ++ (body.uses ++ tokens.filterMap Token.use?)
  | _, _, _, _, .endIf c body => by
      rw [Node.uses, List.filterMap_cons_none rfl, List.filterMap_nil, List.append_nil]
  | _, _, _, _, .elseBranch c body h => by
      rw [Node.uses, h.uses, List.filterMap_cons_none rfl, List.filterMap_append,
        List.filterMap_cons_none rfl, List.filterMap_nil, List.append_nil]
  | _, _, _, _, .elseIf c body h => by
      rw [Node.uses, Template.uses, Template.uses, h.uses, List.append_nil,
        List.filterMap_cons_none rfl]

end

/-- A template declares the uses that are kept: each used name once, and as a flag exactly
if a condition tests it. In a compiled text the uses are its placeholders and flags. -/
theorem declared_eq_kept (template : Template) :
    template.declared = kept template.uses ∧
    (template.declared.map Variable.name).Nodup ∧
    (∀ name, name ∈ template.declared.map Variable.name ↔
      name ∈ template.uses.map Variable.name) ∧
    (∀ name, .flag name ∈ template.declared ↔ ∃ c ∈ template.conditions, name ∈ c.flags) ∧
    ∀ text declared, compile text = .ok ⟨template, declared⟩ →
      template.uses = (tokenize text).filterMap Token.use? ∧
        declared = kept ((tokenize text).filterMap Token.use?) := by
  have hdeclared : template.declared = kept template.uses :=
    Declarations.declared_ofUses template.uses
  refine ⟨hdeclared, ?_, ?_, ?_, ?_⟩
  · rw [hdeclared]
    exact nodup_names_kept template.uses
  · intro name
    rw [hdeclared]
    exact mem_names_kept
  · intro name
    rw [hdeclared, flag_mem_kept, flag_mem_uses_iff]
  · intro text declared h
    obtain ⟨htext, hcompiled⟩ := ofText_of_compile h
    have huses := (statements_of_ofText htext).uses
    refine ⟨huses, ?_⟩
    rw [← huses, ← hdeclared]
    exact hcompiled

/-- A name that is text, then a flag, then text again, and one that is text twice. -/
def promotedText : Text :=
  ['{', '{', 'a', '}', '}', '{', '{', 'b', '}', '}', '#', 'i', 'f', ' ', '{', '{', 'a', '}',
    '}', '#', 't', 'h', 'e', 'n', '{', '{', 'b', '}', '}', '{', '{', 'c', '}', '}', '#', 'e',
    'l', 's', 'e', '{', '{', 'a', '}', '}', '#', 'e', 'n', 'd', 'i', 'f']

theorem declared_promotedText :
    let template : Template :=
      [.placeholder ['a'], .placeholder ['b'],
        .ifThenElse (.flag ['a']) [.placeholder ['b'], .placeholder ['c']] [.placeholder ['a']]]
    compile promotedText = .ok ⟨template, [.text ['b'], .flag ['a'], .text ['c']]⟩ ∧
      template.uses = (tokenize promotedText).filterMap Token.use? ∧
      [.text ['b'], .flag ['a'], .text ['c']] =
        kept ((tokenize promotedText).filterMap Token.use?) := by
  intro template
  have h : compile promotedText = .ok ⟨template, [.text ['b'], .flag ['a'], .text ['c']]⟩ := by
    with_unfolding_all rfl
  exact ⟨h, (declared_eq_kept template).2.2.2.2 promotedText _ h⟩

end Stencil
