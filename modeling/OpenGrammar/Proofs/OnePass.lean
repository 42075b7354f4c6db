import Mathlib.Algebra.Order.BigOperators.Group.List
import Mathlib.Algebra.Order.Group.Nat
import OpenGrammar.Proofs.RealProductions
import OpenGrammar.Proofs.TrailingBlocks

/-! Bodies linked in one pass. External references are replaced first and the other names in
what comes out of that, so that a name which stands for an external reference is looked
up once more. Both passes are one unless a rule of the grammar has such a name. -/
namespace OpenGrammar
namespace Token

/-! Names that are replaced by longer ones -/

theorem length_flatMap_lt {α : Type} {l : List α} {f g : α → Text}
    (hle : ∀ x ∈ l, (f x).length ≤ (g x).length) (hlt : ∃ x ∈ l, (f x).length < (g x).length) :
    (l.flatMap f).length < (l.flatMap g).length := by
  simp only [List.length_flatMap]
  exact List.sum_lt_sum _ _ hle hlt

theorem length_flatMap_le {α : Type} {l : List α} {f g : α → Text}
    (hle : ∀ x ∈ l, (f x).length ≤ (g x).length) : (l.flatMap f).length ≤ (l.flatMap g).length := by
  simp only [List.length_flatMap]
  exact List.sum_le_sum hle

section Growing

variable {f : Text → Option Text} (hf : ∀ name target, f name = some target → name.length < target.length)
include hf

theorem length_le_replaced (tok : Token) :
    tok.text.length ≤ (if tok.kind = .identifier then (f tok.text).getD tok.text else tok.text).length := by
  split
  · cases hr : f tok.text with
    | none => exact Nat.le_refl _
    | some target => exact Nat.le_of_lt (hf _ _ hr)
  · exact Nat.le_refl _

theorem length_le_mapIdentifiers (t : Text) : t.length ≤ (mapIdentifiers f t).length := by
  conv_lhs => rw [← spell_tokenize t]
  exact length_flatMap_le fun tok _ => length_le_replaced hf tok

theorem length_lt_mapIdentifiers {t name target : Text} (hn : name ∈ identifiers t)
    (hr : f name = some target) : t.length < (mapIdentifiers f t).length := by
  obtain ⟨tok, htok, rfl⟩ := List.mem_map.1 hn
  simp only [List.mem_filter, beq_iff_eq] at htok
  conv_lhs => rw [← spell_tokenize t]
  refine length_flatMap_lt (fun tok _ => length_le_replaced hf tok) ⟨tok, htok.1, ?_⟩
  rw [if_pos htok.2, hr]
  exact hf _ _ hr

end Growing

theorem mapIdentifiers_of_none {f : Text → Option Text} {t : Text}
    (h : ∀ name ∈ identifiers t, f name = none) : mapIdentifiers f t = t := by
  conv_rhs => rw [← spell_tokenize t]
  unfold mapIdentifiers spell
  refine List.flatMap_congr fun tok ht => ?_
  split
  · rename_i hk
    rw [h tok.text (List.mem_map.2 ⟨tok, List.mem_filter.2 ⟨ht, by simp [hk]⟩, rfl⟩)]
    rfl
  · rfl

theorem mem_externals_iff {t name : Text} : name ∈ externals t ↔ .external name ∈ pieces (tokenize t) := by
  rw [externals, List.mem_filterMap]
  constructor
  · rintro ⟨p, hp, he⟩
    cases p with
    | plain tok => cases he
    | external other => rwa [← Option.some.inj he]
  · exact fun h => ⟨_, h, rfl⟩

/-! Texts cut between two pieces -/

theorem pieces_eq_cons {toks : List Token} {p : Piece} {ps : List Piece}
    (hall : ∀ tok ∈ toks, tok.Leads []) (h : pieces toks = p :: ps) :
    ∃ rest, toks = p.tokens ++ rest ∧ pieces rest = ps := by
  have htokens := tokens_pieces hall
  fun_cases pieces toks with
  | case1 op name cl rest hop =>
    rw [pieces, if_pos hop] at h htokens
    obtain ⟨rfl, rfl⟩ := List.cons.inj h
    refine ⟨rest, ?_, rfl⟩
    have hrest : (pieces rest).flatMap Piece.tokens = rest :=
      tokens_pieces fun tok ht => hall tok (by simp [ht])
    rw [← htokens, List.flatMap_cons, hrest]
  | case2 op name cl rest hop =>
    rw [pieces, if_neg hop] at h
    obtain ⟨rfl, rfl⟩ := List.cons.inj h
    exact ⟨name :: cl :: rest, rfl, rfl⟩
  | case3 op rest hop =>
    rw [pieces] at h
    · obtain ⟨rfl, rfl⟩ := List.cons.inj h
      exact ⟨rest, rfl, rfl⟩
    · exact hop
  | case4 => cases h

theorem pieces_tokens_append {p : Piece} {a b : List Token}
    (h : pieces (p.tokens ++ (a ++ b)) = p :: pieces (a ++ b)) :
    pieces (p.tokens ++ a) = p :: pieces a := by
  cases p with
  | external name => simp [Piece.tokens, externalTokens, pieces]
  | plain op =>
    rcases a with - | ⟨name, - | ⟨cl, rest⟩⟩
    · simp [Piece.tokens, pieces]
    · simp [Piece.tokens, pieces]
    · by_cases hop : op.text = ['\x7b'] ∧ name.kind = .identifier ∧ cl.text = ['\x7d']
      · simp [Piece.tokens, pieces, hop] at h
      · simp only [Piece.tokens, List.singleton_append]
        rw [pieces, if_neg hop]

theorem pieces_cut {toks : List Token} {ps qs : List Piece} (hall : ∀ tok ∈ toks, tok.Leads [])
    (h : pieces toks = ps ++ qs) :
    pieces (ps.flatMap Piece.tokens) = ps ∧ pieces (qs.flatMap Piece.tokens) = qs := by
  induction ps generalizing toks with
  | nil =>
    have htokens := tokens_pieces hall
    rw [h, List.nil_append] at htokens
    exact ⟨by simp [pieces], by rw [htokens, h, List.nil_append]⟩
  | cons p ps ih =>
    rw [List.cons_append] at h
    obtain ⟨rest, rfl, hrest⟩ := pieces_eq_cons hall h
    have hall' : ∀ tok ∈ rest, tok.Leads [] := fun tok ht => hall tok (List.mem_append_right _ ht)
    obtain ⟨hps, hqs⟩ := ih hall' hrest
    have htokens := tokens_pieces hall'
    rw [hrest, List.flatMap_append] at htokens
    rw [← htokens] at h hrest
    refine ⟨?_, hqs⟩
    rw [List.flatMap_cons, pieces_tokens_append (b := qs.flatMap Piece.tokens), hps]
    rw [h, hrest]

/-- A text can be cut between two of its pieces. -/
theorem exists_cut {t : Text} {ps qs : List Piece} (h : pieces (tokenize t) = ps ++ qs) :
    ∃ a b, t = a ++ b ∧ pieces (tokenize a) = ps ∧ pieces (tokenize b) = qs := by
  have hall : ∀ tok ∈ tokenize t, tok.Leads [] := fun tok ht => leads_of_mem_tokenize ht
  have htokens := tokens_pieces hall
  rw [h, List.flatMap_append] at htokens
  have ha := @tokenize_spell_of_tokenize t [] (ps.flatMap Piece.tokens) (qs.flatMap Piece.tokens) htokens.symm
  have hb := @tokenize_spell_of_tokenize t (ps.flatMap Piece.tokens) (qs.flatMap Piece.tokens) []
    (by rw [List.append_nil, htokens])
  obtain ⟨hps, hqs⟩ := pieces_cut hall h
  refine ⟨spell (ps.flatMap Piece.tokens), spell (qs.flatMap Piece.tokens), ?_, ?_, ?_⟩
  · rw [← spell_append, htokens, spell_tokenize]
  · rw [ha, hps]
  · rw [hb, hqs]

end Token

theorem flatMap_eq_append_cons {α β : Type} {l : List α} {g : α → List β} {a b : List β} {x : β}
    (h : l.flatMap g = a ++ x :: b) :
    ∃ front e back u v, l = front ++ e :: back ∧ g e = u ++ x :: v ∧
      a = front.flatMap g ++ u ∧ b = v ++ back.flatMap g := by
  induction l generalizing a with
  | nil => simp at h
  | cons e l ih =>
    rw [List.flatMap_cons] at h
    rcases List.append_eq_append_iff.1 h with ⟨a', rfl, hl⟩ | ⟨c, hc, hx⟩
    · obtain ⟨front, e', back, u, v, rfl, he, rfl, rfl⟩ := ih hl
      exact ⟨e :: front, e', back, u, v, rfl, he, by simp, rfl⟩
    · cases c with
      | nil =>
        obtain ⟨front, e', back, u, v, rfl, he, hu, rfl⟩ := ih (a := []) (by simpa using hx.symm)
        refine ⟨e :: front, e', back, u, v, rfl, he, ?_, rfl⟩
        simp only [List.append_nil] at hc
        rw [List.flatMap_cons, List.append_assoc, ← hu, ← hc, List.append_nil]
      | cons y c =>
        obtain ⟨rfl, rfl⟩ := List.cons.inj hx
        exact ⟨[], e, l, a, c, rfl, hc, by simp, rfl⟩

namespace Linkage

open Token (Piece isIdentPart isIdentifier pieces tokenize)

variable {link : Linkage}

def linkPiece (link : Linkage) : Piece → Text
  | .plain tok => if tok.kind = .identifier then (link.reference tok.text).getD tok.text else tok.text
  | .external name => externalReference link.suffix name

/-- The text with its external references and the other names in it linked in one pass. -/
def linkAtOnce (link : Linkage) (t : Text) : Text := (pieces (tokenize t)).flatMap link.linkPiece

def linkPieceTwice (link : Linkage) : Piece → Text
  | .plain tok => link.linkPiece (.plain tok)
  | .external name => link.linkReferences (externalReference link.suffix name)

/-- A name that stands for the external reference is that of a rule which is linked. -/
def Captures (link : Linkage) (name : Text) : Prop :=
  ∃ inner ∈ Token.identifiers (externalReference link.suffix name), ∃ target,
    link.reference inner = some target

theorem length_lt_reference (name target : Text) (h : link.reference name = some target) :
    name.length < target.length := by
  have hreal : (Naming.realName name).length = name.length + 5 := by
    simp [Naming.realName, Naming.realSuffix]
  rcases reference_eq_some h with ⟨rfl, -⟩ | ⟨rfl, -⟩
  · omega
  · simp [call, hreal]
    omega

theorem linkReferences_linkExternals (hs : ∀ c ∈ link.suffix, isIdentPart c = true) (t : Text) :
    link.linkReferences (link.linkExternals t) = (pieces (tokenize t)).flatMap link.linkPieceTwice := by
  conv_lhs => rw [linkReferences, Token.mapIdentifiers, tokenize_linkExternals hs, List.flatMap_assoc]
  refine List.flatMap_congr fun p _ => ?_
  cases p with
  | plain tok => simp [Piece.relink, linkPieceTwice, linkPiece]
  | external name => rfl

/-- Both passes are one exactly if no name that stands for an external reference is linked. -/
theorem linkReferences_linkExternals_eq_iff (hs : ∀ c ∈ link.suffix, isIdentPart c = true) {t : Text} :
    link.linkReferences (link.linkExternals t) = link.linkAtOnce t ↔
      ∀ name ∈ Token.externals t, ¬ link.Captures name := by
  rw [linkReferences_linkExternals hs]
  constructor
  · rintro heq name hn ⟨inner, hi, target, hr⟩
    have hlt : (link.linkAtOnce t).length < ((pieces (tokenize t)).flatMap link.linkPieceTwice).length := by
      refine Token.length_flatMap_lt (fun p _ => ?_) ⟨_, Token.mem_externals_iff.1 hn, ?_⟩
      · cases p with
        | plain tok => exact Nat.le_refl _
        | external other => exact Token.length_le_mapIdentifiers length_lt_reference _
      · exact Token.length_lt_mapIdentifiers length_lt_reference hi hr
    rw [heq] at hlt
    exact absurd hlt (Nat.lt_irrefl _)
  · intro h
    refine List.flatMap_congr fun p hp => ?_
    cases p with
    | plain tok => rfl
    | external name =>
      refine Token.mapIdentifiers_of_none fun inner hi => ?_
      rw [Option.eq_none_iff_forall_ne_some]
      exact fun target hr => h name (Token.mem_externals_iff.2 hp) ⟨inner, hi, target, hr⟩

end Linkage

theorem getLast?_externalReference (suffix name : Text) :
    (Linkage.externalReference suffix name).getLast? = some '>' := by
  simp [Linkage.externalReference, Linkage.call, List.getLast?_cons]

theorem last_externalReference (suffix name : Text) :
    ∃ c ∈ (Linkage.externalReference suffix name).getLast?, Text.isBlank c = false :=
  ⟨'>', getLast?_externalReference suffix name, by decide⟩

theorem brace_not_mem_externalReference {suffix name : Text}
    (hs : ∀ c ∈ suffix, Token.isIdentPart c = true) (hn : Token.isIdentifier name = true) :
    '\x7b' ∉ Linkage.externalReference suffix name := by
  have hword : ∀ {word : Text}, (∀ c ∈ word, Token.isIdentPart c = true) → '\x7b' ∉ word :=
    fun hw hm => absurd (hw _ hm) (by decide)
  have haccessor := hword (Naming.isIdentPart_of_mem_accessor hs hn)
  have hreal := hword fun c hc => Token.isIdentPart_of_mem (Naming.isIdentifier_realName hn) hc
  simp [Linkage.externalReference, Linkage.call, haccessor, hreal]

namespace ComposedRule

open Token (Piece isIdentPart pieces spell tokenize)

variable {link : Linkage} {rule : Rule}

theorem openBody_eq (link : Linkage) (rule : Rule) :
    openBody link rule = link.linkExternals (Text.trimEnd rule.body) :=
  (Token.mapExternals_trimEnd (fun name _ => last_externalReference link.suffix name) _).symm

theorem exists_cut_linkExternals (hs : ∀ c ∈ link.suffix, isIdentPart c = true) {t : Text}
    {before behind : List Token} {op : Token} (hop : op.isSymbol '\x7b' = true)
    (h : tokenize (link.linkExternals t) = before ++ op :: behind) :
    ∃ a b, t = a ++ b ∧ link.linkExternals a = spell before ∧
      link.linkExternals b = spell (op :: behind) := by
  rw [Linkage.tokenize_linkExternals hs] at h
  obtain ⟨front, p, back, u, v, hpieces, hp, rfl, rfl⟩ := flatMap_eq_append_cons h
  have hplain : u = [] ∧ v = [] := by
    cases p with
    | plain tok =>
      rw [Piece.relink, List.singleton_eq_append_iff] at hp
      rcases hp with ⟨rfl, hv⟩ | ⟨-, hv⟩
      · exact ⟨rfl, (List.cons.inj hv).2⟩
      · cases hv
    | external name =>
      obtain ⟨tok, htok, hk, rfl⟩ := @Token.mem_of_external_mem_pieces (tokenize t) name (by simp [hpieces])
      have hbrace := brace_not_mem_externalReference hs (Token.isIdentifier_of_mem_tokenize htok hk)
      have hmem : op ∈ tokenize (Linkage.externalReference link.suffix tok.text) := by
        rw [Piece.relink] at hp
        simp [hp]
      refine absurd ?_ hbrace
      rw [← Token.spell_tokenize (Linkage.externalReference link.suffix tok.text)]
      exact List.mem_flatMap.2 ⟨op, hmem, by simp [(Token.isSymbol_iff.1 hop).2]⟩
  obtain ⟨rfl, rfl⟩ := hplain
  obtain ⟨a, b, rfl, ha, hb⟩ := Token.exists_cut hpieces
  refine ⟨a, b, rfl, ?_, ?_⟩
  · rw [Linkage.linkExternals, Token.mapExternals_eq, ha, List.append_nil]
  · rw [Linkage.linkExternals, Token.mapExternals_eq, hb, List.flatMap_cons, hp]
    rfl

/-- The production of a rule before any name in it is linked. Blank characters and a block, if
there is one, stand behind it in the body. -/
def IsGivenProduction (link : Linkage) (rule : Rule) (part : Text) : Prop :=
  ∃ gap block, Text.trimEnd rule.body = part ++ (gap ++ block) ∧ Text.allBlank gap = true ∧
    (AttributeBlock.splitBody (openBody link rule) = (link.linkExternals part, none) ∧ block = [] ∨
      ∃ inner, AttributeBlock.splitBody (openBody link rule) = (link.linkExternals part, some inner) ∧
        link.linkExternals block = '\x7b' :: (inner ++ ['\x7d']))

theorem exists_isGivenProduction (hs : ∀ c ∈ link.suffix, isIdentPart c = true) (rule : Rule) :
    ∃ part, IsGivenProduction link rule part := by
  have hlast : Text.trimEnd (openBody link rule) = openBody link rule :=
    Text.trimEnd_of_last fun c hc => Text.last_trimEnd hc
  rcases AttributeBlock.splitBody_none_or_some (openBody link rule) with hsplit | ⟨production, inner, hsplit⟩
  · refine ⟨Text.trimEnd rule.body, [], [], by simp, rfl, Or.inl ⟨?_, rfl⟩⟩
    rw [hsplit, hlast, openBody_eq]
  · obtain ⟨pair, -, hproduction, hinner⟩ := AttributeBlock.splitBody_eq_some_iff_pair.1 hsplit
    have hparts := pair.parts
    conv at hparts => lhs; rw [hlast, openBody_eq]
    obtain ⟨a, block, hab, ha, hblock⟩ := exists_cut_linkExternals hs pair.opens hparts
    obtain ⟨gap, hgap, ha'⟩ := Text.exists_trimEnd_append a
    have hpart : Text.trimEnd (spell pair.before) = link.linkExternals (Text.trimEnd a) := by
      rw [← ha]
      exact (Token.mapExternals_trimEnd (fun name _ => last_externalReference link.suffix name) _).symm
    refine ⟨Text.trimEnd a, gap, block, ?_, hgap, Or.inr ⟨inner, ?_, ?_⟩⟩
    · rw [hab, ← List.append_assoc, ← ha']
    · rw [hsplit, hproduction, hpart]
    · rw [hblock, hinner, Token.spell_cons, (Token.isSymbol_iff.1 pair.opens).2]
      rfl

theorem IsGivenProduction.splitBody_fst {part : Text} (h : IsGivenProduction link rule part) :
    (AttributeBlock.splitBody (openBody link rule)).1 = link.linkExternals part := by
  obtain ⟨gap, block, -, -, ⟨hsplit, -⟩ | ⟨inner, hsplit, -⟩⟩ := h
  · rw [hsplit]
  · rw [hsplit]

end ComposedRule

namespace Composition

open ComposedRule

section Engine

variable {engine : PatternEngine} {config : Config} {names : GrammarNames} {text : Text}
  {path : Option Text} {source : Source} {directives : Directives} {comp : Composition}

/-- In a composed grammar the real production of a rule is its production with all names linked
in one pass, exactly if no name that stands for an external reference in it is linked
itself. -/
theorem production_of_compose (hscan : Source.scan text path = .ok source)
    (hread : Directives.read source.header config.defaultBaseClass = .ok directives)
    (h : compose config names text path = .ok comp)
    (hs : ∀ c ∈ config.accessorSuffix, Token.isIdentPart c = true)
    {rule : Rule} (hr : rule ∈ source.rules.rules)
    (hk : Classification.kindOf directives rule ≠ .subclass) :
    let link := linkageOf config source directives
    realText link rule <:+: comp.grammarText ∧
    ∃ part, IsGivenProduction link rule part ∧
      openProduction link rule = link.linkReferences (link.linkExternals part) ∧
      (openProduction link rule = link.linkAtOnce part ↔
        ∀ name ∈ Token.externals part, ¬ link.Captures name) := by
  intro link
  refine ⟨infix_realText hscan hread h hr hk, ?_⟩
  obtain ⟨part, hpart⟩ := @exists_isGivenProduction link hs rule
  have hproduction : openProduction link rule = link.linkReferences (link.linkExternals part) := by
    rw [openProduction, hpart.splitBody_fst]
  refine ⟨part, hpart, hproduction, ?_⟩
  rw [hproduction]
  exact Linkage.linkReferences_linkExternals_eq_iff hs

end Engine

theorem production_of_compose_sample :
    ∃ source directives comp,
      Source.scan sampleText none = .ok source ∧
      Directives.read source.header ({} : Config).defaultBaseClass = .ok directives ∧
      compose {} sampleNames sampleText none = .ok comp ∧
      ∃ rule ∈ source.rules.rules, Classification.kindOf directives rule ≠ .subclass ∧
        realText (linkageOf {} source directives) rule <:+: comp.grammarText ∧
        ∃ part, IsGivenProduction (linkageOf {} source directives) rule part := by
  obtain ⟨source, directives, comp, hscan, hread, h⟩ := exists_stages_of_isOk sample_isOk
  have hprivate : (Source.scan sampleText none).toOption.all (fun s => decide
      (∃ rule ∈ s.rules.rules, rule.isPrivate = true)) = true := by decide +kernel
  rw [hscan] at hprivate
  obtain ⟨rule, hr, hp⟩ := of_decide_eq_true hprivate
  have hk : Classification.kindOf directives rule ≠ .subclass := by
    rw [Classification.kindOf_eq_hidden_iff.2 hp]
    decide
  obtain ⟨hreal, part, hpart, -⟩ := production_of_compose hscan hread h
    (List.all_eq_true.1 (by decide)) hr hk
  exact ⟨source, directives, comp, hscan, hread, h, rule, hr, hk, hreal, part, hpart⟩

def accessorRuleText : Text := "a ::= \x7bb\x7d 'x'\nbExt ::= 'q'\n".toList

/-- The accessor that stands for an external reference is linked once more. -/
theorem external_reference_captured :
    ∃ source directives comp,
      Source.scan accessorRuleText none = .ok source ∧
      Directives.read source.header ({} : Config).defaultBaseClass = .ok directives ∧
      compose {} sampleNames accessorRuleText none = .ok comp ∧
      "a_real ::= <<<<bExtExt bExt_real>> <<b_real>>>> 'x' \x7b".toList <:+: comp.grammarText ∧
      ∃ rule ∈ source.rules.rules, rule.body = "\x7bb\x7d 'x'".toList ∧
        Classification.kindOf directives rule = .extendable ∧
        openProduction (linkageOf {} source directives) rule =
          "<<<<bExtExt bExt_real>> <<b_real>>>> 'x'".toList ∧
        (linkageOf {} source directives).linkAtOnce rule.body = "<<bExt <<b_real>>>> 'x'".toList := by
  have hok : (compose {} sampleNames accessorRuleText none).isOk = true := by decide +kernel
  obtain ⟨source, directives, comp, hscan, hread, h⟩ := exists_stages_of_isOk hok
  have htext : (compose {} sampleNames accessorRuleText none).toOption.all (fun c => decide
      ("a_real ::= <<<<bExtExt bExt_real>> <<b_real>>>> 'x' \x7b".toList <:+: c.grammarText)) = true := by
    decide +kernel
  have hrule : (Source.scan accessorRuleText none).toOption.all (fun s =>
      (Directives.read s.header ({} : Config).defaultBaseClass).toOption.all fun d => decide
        (∃ rule ∈ s.rules.rules, rule.body = "\x7bb\x7d 'x'".toList ∧
          Classification.kindOf d rule = .extendable ∧
          openProduction (linkageOf {} s d) rule = "<<<<bExtExt bExt_real>> <<b_real>>>> 'x'".toList ∧
          (linkageOf {} s d).linkAtOnce rule.body = "<<bExt <<b_real>>>> 'x'".toList)) = true := by
    decide +kernel
  rw [h] at htext
  rw [hscan] at hrule
  simp only [Except.toOption, Option.all_some, hread] at hrule
  exact ⟨source, directives, comp, hscan, hread, h, of_decide_eq_true htext, of_decide_eq_true hrule⟩

end Composition
end OpenGrammar
