import SourceAudit.Proofs.Lowercase
import SourceAudit.Proofs.Lowering.Assignments
import SourceAudit.Proofs.Lowering.Sites

/-! Credentials that are written out, and markup that is put together.

Two rules look at what is assigned. One reports a declaration or an assignment to something named
like a credential if a string of some length stands among the values (`KeepsSecret`); it does so in
every language, for every form of the grammar. The other reports an assignment to the markup of an
element of anything but a plain string (`WritesMarkup`), and exists in the ECMAScript family only.
Both predicates are about the tree, its texts and the vocabulary of the language.

What is named like a credential is told by a word in the lowercase form of the left side, and such a
word is neither lost in a longer text (`NamesSecret.append`) nor changed by the case of letters
(`namesSecret_of_caseVariant`). -/
namespace SourceAudit
open Syntax

theorem Text.contains_iff_infix (needle text : List Char) :
    contains needle text = true ↔ needle <:+: text := by
  induction text with
  | nil => simp [contains]
  | cons c rest ih =>
    rw [contains, Bool.or_eq_true, ih, List.isPrefixOf_iff_prefix, List.infix_cons_iff]

/-! ### Credentials -/

/-- Named like a credential, in any letter case. -/
def NamesSecret (target : String) : Prop :=
  ∃ word ∈ ["password", "passwd", "secret", "token", "api_key", "apikey", "api_secret",
      "access_token", "auth_token", "private_key", "secret_key", "database_url", "db_password"],
    word.toList <:+: Text.lower target.toList

/-- A declaration or an assignment of a string of more than four characters, quotes included, to
something named like a credential. The string may stand among other values and inside wrappers. -/
def KeepsSecret (language : Language) (source : Source) (t : Tree) : Prop :=
  ∃ form ∈ language.forms, t.kind = form.kind ∧
    (∃ target, form.Targets source t target ∧ NamesSecret target) ∧
    ∃ x inner, form.Gives t x ∧ language.vocabulary.Peels x inner ∧
      language.vocabulary.IsPlain inner ∧ 4 < (source.textOf inner).toList.length

theorem isSecretName_iff (target : String) :
    StructuralRule.isSecretName target = true ↔ NamesSecret target := by
  simp only [StructuralRule.isSecretName, StructuralRule.secretNames, NamesSecret, List.any_eq_true,
    Text.contains_iff_infix]

section Reports
variable {language : Language} {source : Source} {t : Tree}

/-- A value is a secret if it is a string of some length inside its wrappers. -/
theorem isSecretValue_iff {x inner : Tree} (peels : language.vocabulary.Peels x inner) :
    StructuralRule.isSecretValue (language.lowering.value source x) = true ↔
      language.vocabulary.IsPlain inner ∧ 4 < (source.textOf inner).toList.length := by
  have describes := language.follows.describes peels source
  rw [StructuralRule.isSecretValue, Bool.and_eq_true, describes.plain, decide_eq_true_iff,
    Language.text_of_peels peels]
  rfl

theorem reports_iff_keepsSecret :
    StructuralRule.hardcodedSecret.reports source language t = true ↔
      KeepsSecret language source t := by
  show ((language.lowering.assignment? source t).any
    (StructuralRule.isHardcodedSecret language)) = true ↔ _
  simp only [Option.any_eq_true, StructuralRule.isHardcodedSecret, Bool.and_eq_true,
    isSecretName_iff, List.any_eq_true]
  constructor
  · intro h
    obtain ⟨a, ha, name, value, mem, secret⟩ := h
    obtain ⟨form, listed, kind, reads⟩ := language.assigns.reads ha
    obtain ⟨x, gives, rfl⟩ := reads.values.mp mem
    obtain ⟨inner, peels⟩ := language.follows.peels x
    exact ⟨form, listed, kind, ⟨_, reads.target, name⟩, x, inner, gives, peels,
      (isSecretValue_iff peels).mp secret⟩
  · intro h
    obtain ⟨form, listed, kind, ⟨target, targets, name⟩, x, inner, gives, peels, secret⟩ := h
    obtain ⟨a, ha, reads⟩ := language.exists_assignment listed kind targets gives
    have same : target = a.target := targets.unique reads.target
    exact ⟨a, ha, same ▸ name, _, reads.values.mpr ⟨x, gives, rfl⟩,
      (isSecretValue_iff peels).mpr secret⟩

end Reports

instance (language : Language) (source : Source) : DecidablePred (KeepsSecret language source) :=
  fun _ => decidable_of_iff _ reports_iff_keepsSecret

/-! ### Markup -/

/-- An assignment of anything but a plain string to the inner or outer markup of an element. -/
def WritesMarkup (language : Language) (source : Source) (t : Tree) : Prop :=
  language.isEcmascript = true ∧ ∃ left right inner, Lowering.Ecmascript.IsAssignment t left right ∧
    (∃ name ∈ ["innerHTML", "outerHTML"], Vocabulary.ecmascript.Names source left name) ∧
    Vocabulary.ecmascript.Peels right inner ∧ ¬Vocabulary.ecmascript.IsPlain inner

namespace Lowering.Ecmascript

theorem memberProperty_eq_some_iff {source : Source} {t : Tree} {name : String} :
    memberProperty source t = some name ↔ Vocabulary.ecmascript.Names source t name :=
  names_iff (v := .ecmascript) fun _ => Vocabulary.peels_iff isWrapper_iff

end Lowering.Ecmascript

theorem reports_iff_writesMarkup {language : Language} {source : Source} {t : Tree} :
    StructuralRule.markupWrite.reports source language t = true ↔
      WritesMarkup language source t := by
  have test : StructuralRule.isMarkupWrite language = fun a => language.isEcmascript &&
      (a.property.any StructuralRule.markupSinks.contains &&
        a.values.any (!·.shape.isStringLiteral)) := by
    funext a
    rw [← Bool.and_assoc]
    rfl
  show ((language.lowering.assignment? source t).any (StructuralRule.isMarkupWrite language)) =
    true ↔ _
  rw [test, language.any_assignment?_iff fun _ => rfl]
  refine and_congr_right fun family => exists_congr fun left => exists_congr fun right => ?_
  have describes {inner : Tree} (peels : Vocabulary.ecmascript.Peels right inner) :=
    Lowering.Ecmascript.follows.describes peels source
  simp only [Lowering.Ecmascript.assignmentOf, Bool.and_eq_true, Option.any_eq_true,
    List.contains_iff_mem, Lowering.Ecmascript.memberProperty_eq_some_iff, List.any_cons,
    List.any_nil, Bool.or_false, Bool.not_eq_true']
  constructor
  · intro h
    obtain ⟨sides, ⟨name, names, listed⟩, dynamic⟩ := h
    obtain ⟨inner, peels⟩ := Lowering.Ecmascript.follows.peels right
    refine ⟨inner, sides, ⟨name, listed, names⟩, peels, ?_⟩
    rw [← (describes peels).plain, Bool.not_eq_true]
    exact dynamic
  · intro h
    obtain ⟨inner, sides, ⟨name, listed, names⟩, peels, dynamic⟩ := h
    refine ⟨sides, ⟨name, names, listed⟩, ?_⟩
    rw [← (describes peels).plain, Bool.not_eq_true] at dynamic
    exact dynamic

instance (language : Language) (source : Source) : DecidablePred (WritesMarkup language source) :=
  fun _ => decidable_of_iff _ reports_iff_writesMarkup

/-- **Credentials and markup are reported exactly where they are written.** In every language, and
whatever the tree, the rule about credentials reports the declarations and assignments that keep
one, and the rule about markup the assignments that write it, each node once and in pre-order. -/
theorem secrets_and_markup_reported_exactly (language : Language) (source : Source) (t : Tree)
    (file : String) :
    let c := t.constructs source language
    let report (rule : StructuralRule) (n : Tree) :=
      Finding.ofSite rule.info file language (Site.ofTree source n)
    StructuralRule.hardcodedSecret.findings file language c =
        (t.preorder.filter fun n => KeepsSecret language source n).map
          (report .hardcodedSecret) ∧
      StructuralRule.markupWrite.findings file language c =
        (t.preorder.filter fun n => WritesMarkup language source n).map (report .markupWrite) := by
  intro c report
  exact ⟨StructuralRule.findings_eq_filter (fun _ => reports_iff_keepsSecret) t file,
    StructuralRule.findings_eq_filter (fun _ => reports_iff_writesMarkup) t file⟩

-- the second of two names tells the credential, and the second of two values is long enough
example :
    KeepsSecret .go (Source.ofText "const user, apiKey = \"u\", (\"AKIA1\")".toList)
      (.node "const_spec" none true 6 35
        [.node "identifier" (some "name") true 6 10 [],
         .node "identifier" (some "name") true 12 18 [],
         .node "expression_list" (some "value") true 21 35
          [.node "interpreted_string_literal" none true 21 24 [],
           .node "parenthesized_expression" none true 26 35
            [.node "interpreted_string_literal" none true 27 34 []]]]) := by
  decide +kernel

/-! ### Names around credentials -/

theorem secretNames_ascii {name : String} (mem : name ∈ StructuralRule.secretNames) :
    Text.IsAscii name.toList := by
  have ascii : (StructuralRule.secretNames.all fun name =>
      name.toList.all fun c => c.toNat < 128) = true := by decide +kernel
  intro c inside
  exact of_decide_eq_true (List.all_eq_true.mp (List.all_eq_true.mp ascii name mem) c inside)

theorem NamesSecret.append {target : String} (h : NamesSecret target) (before after : String) :
    NamesSecret (before ++ target ++ after) := by
  obtain ⟨name, mem, inside⟩ := h
  refine ⟨name, mem, ?_⟩
  rw [String.toList_append, String.toList_append]
  exact Text.infix_lower_append (secretNames_ascii mem) inside before.toList after.toList

theorem namesSecret_of_caseVariant {s t : String} (h : CaseVariant s t) :
    NamesSecret s ↔ NamesSecret t :=
  exists_congr fun _ => and_congr_right fun mem =>
    Text.infix_lower_of_caseVariant (secretNames_ascii mem) h

/-- **Nothing around the name of a credential hides it**, be it an object, an index or a pattern,
and the case of ASCII letters does not matter. -/
theorem secret_names_show_through :
    (∀ before t after : String, StructuralRule.isSecretName t = true →
      StructuralRule.isSecretName (before ++ t ++ after) = true) ∧
    (∀ s t : String, CaseVariant s t →
      StructuralRule.isSecretName s = StructuralRule.isSecretName t) ∧
    ∀ (language : Language) (a : Assignment) (before target after : String),
      CaseVariant target a.target → StructuralRule.isHardcodedSecret language a = true →
      StructuralRule.isHardcodedSecret language { a with target := before ++ target ++ after } =
        true := by
  have extended (before t after : String) (h : StructuralRule.isSecretName t = true) :
      StructuralRule.isSecretName (before ++ t ++ after) = true := by
    rw [isSecretName_iff] at h ⊢
    exact h.append before after
  have respelled (s t : String) (h : CaseVariant s t) :
      StructuralRule.isSecretName s = StructuralRule.isSecretName t := by
    rw [Bool.eq_iff_iff, isSecretName_iff, isSecretName_iff, namesSecret_of_caseVariant h]
  refine ⟨extended, respelled, ?_⟩
  intro language a before target after same h
  rw [StructuralRule.isHardcodedSecret, Bool.and_eq_true] at h ⊢
  exact ⟨extended before target after (respelled target a.target same ▸ h.1), h.2⟩

/-- A sigma ends the name when it stands alone, and does not with more behind it: the form of the
name is then no longer part of the form of the whole. -/
theorem secret_names_show_through_sigma :
    Text.contains (Text.lower "tokenΣ".toList) (Text.lower "my.tokenΣx".toList) = false ∧
      StructuralRule.isSecretName "tokenΣ" = true ∧
      StructuralRule.isSecretName ("my." ++ "tokenΣ" ++ "x") = true ∧
      CaseVariant "ToKenΣ" "tokenΣ" ∧
      StructuralRule.isSecretName "ToKenΣ" = StructuralRule.isSecretName "tokenΣ" ∧
      let a : Assignment :=
        ⟨"tokenΣ", [], none, [⟨.stringLiteral, "\"AKIA1\"", none⟩], false, ⟨1, 1, ""⟩⟩
      StructuralRule.isHardcodedSecret .python a = true ∧
        StructuralRule.isHardcodedSecret .python { a with target := "my." ++ "ToKenΣ" ++ "x" } =
          true := by
  obtain ⟨extended, respelled, reported⟩ := secret_names_show_through
  have name : StructuralRule.isSecretName "tokenΣ" = true := by decide +kernel
  have same : CaseVariant "ToKenΣ" "tokenΣ" := by decide +kernel
  refine ⟨by decide +kernel, name, extended _ _ _ name, same, respelled _ _ same, ?_⟩
  intro a
  have kept : StructuralRule.isHardcodedSecret .python a = true := by decide +kernel
  exact ⟨kept, reported .python a _ _ _ same kept⟩

end SourceAudit
