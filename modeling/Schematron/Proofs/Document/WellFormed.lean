import Mathlib.Data.List.Forall2
import Schematron.Proofs.Document.ReadBack
import Schematron.Proofs.Document.Strings

/-!
# Documents in the grammar

Whether the text of a document is well-formed, with a prefixed name in each tag,
depends on its options alone. The prefix has to be a name without colons, and the
namespace a string that a document may hold. The check of the options asks for
neither of them: it only keeps blanks and colons out of the prefix, so it also takes
one that starts with a digit.
-/

namespace Schematron

open Grammar

namespace Document

variable {d : Document} {o : OutputOptions}

theorem Built.reachable (built : d.Built) : ∀ p ∈ d.patterns, p.Reachable := by
  cases d with
  | schema s => exact fun p member => (built p member).reachable
  | pattern p =>
      intro p' member
      rw [List.mem_singleton.mp member]
      exact Pattern.Built.reachable built
  | _ => exact nofun

theorem Built.exists_root (built : d.Built) :
    ∃ name attributes children, d.elements = [.element name attributes children] := by
  cases d with
  | message m => cases built
  | _ => exact ⟨_, _, _, rfl⟩

/-- The text of a document of legal strings is well-formed, with the prefix in front of the name of
each element, exactly if the prefix is a name without colons and the namespace is legal. -/
theorem wellFormed_iff (valid : o.validate = .ok ()) (built : d.Built)
    (legal : ∀ s ∈ d.strings, Legal s) :
    ∃ text, d.toXml o = .ok text ∧
      ((∃ names, WellFormed names text.toList ∧
          List.Forall₂ (fun name written => QName o.nsPrefix.toList name.toList written)
            (Xml.namesAll d.elements) names) ↔
        isNCName o.nsPrefix.toList = true ∧ Legal o.namespaceUri) := by
  obtain ⟨tidy, shown⟩ := uses built.reachable
  have content := shown legal
  refine ⟨o.print d.elements, ?_, ?_⟩
  · rw [toXml_eq_typeset valid built.reachable, o.typeset_tokensAll]
  · obtain ⟨name, attributes, children, root⟩ := built.exists_root
    rw [root] at tidy content ⊢
    have tidy_root := tidy _ (.head [])
    have content : ∀ s ∈ (Xml.element name attributes children).strings, Legal s := by
      simpa [Xml.stringsAll] using content
    constructor
    · rintro ⟨names, written, qualified⟩
      have prefixed : isNCName o.nsPrefix.toList = true := by
        rw [Xml.namesAll, Xml.names] at qualified
        cases qualified with
        | cons first _ => exact first.1
      have chars := (OutputOptions.legal_print_iff valid prefixed tidy_root).mp written.chars
      exact ⟨prefixed, chars.1⟩
    · rintro ⟨prefixed, bound⟩
      have chars := (OutputOptions.legal_print_iff valid prefixed tidy_root).mpr ⟨bound, content⟩
      refine ⟨_, OutputOptions.wellFormed_print valid prefixed tidy_root chars, ?_⟩
      rw [List.forall₂_map_right_iff, List.forall₂_same]
      intro name member
      refine ⟨prefixed, Xml.isNCName_of_mem_namesAll _ tidy name member, ?_⟩
      simp [OutputOptions.qualify]

/-- A prefix that is a name, although there are an accent, a hyphen and a middle dot in it. -/
def accented : OutputOptions := ⟨1, '\t', true, "schéma-2·0", "urn:é&"⟩

/-- A namespace with a character that no document may hold, not even escaped. -/
def unholdable : OutputOptions := { OutputOptions.compact with namespaceUri := "urn:\x01" }

theorem wellFormed_iff_marked :
    (pattern .marked).Built ∧ (∀ s ∈ (pattern .marked).strings, Legal s) ∧
    (accented.validate = .ok () ∧ ∃ text names, (pattern .marked).toXml accented = .ok text ∧
      WellFormed names text.toList) ∧
    unholdable.validate = .ok () ∧ ∃ text, (pattern .marked).toXml unholdable = .ok text ∧
      ¬ ∃ names, WellFormed names text.toList ∧
        List.Forall₂ (fun name written => QName "sch".toList name.toList written)
          (Xml.namesAll (pattern .marked).elements) names := by
  have built : (pattern .marked).Built := Pattern.built_marked
  have legal : ∀ s ∈ (pattern .marked).strings, Legal s := by decide +kernel
  have valid : accented.validate = .ok () := by decide
  have valid' : unholdable.validate = .ok () := by decide
  obtain ⟨text, written, iff⟩ := wellFormed_iff valid built legal
  obtain ⟨text', written', iff'⟩ := wellFormed_iff valid' built legal
  obtain ⟨names, document, -⟩ := iff.mpr ⟨by decide, by decide⟩
  refine ⟨built, legal, ⟨valid, text, names, written, document⟩, valid', text', written', ?_⟩
  exact fun formed => absurd (iff'.mp formed).2 (by decide)

/-- A digit as the prefix is accepted, and no reader of XML takes the tag it makes. -/
def numbered : OutputOptions := { OutputOptions.compact with nsPrefix := "1" }

theorem accepted_malformed :
    numbered.validate = .ok () ∧ (paragraph ⟨none⟩).Built ∧
    (∀ s ∈ (paragraph ⟨none⟩).strings, Legal s) ∧
    ∃ text, (paragraph ⟨none⟩).toXml numbered = .ok text ∧
      ¬ ∃ names, WellFormed names text.toList := by
  refine ⟨by decide, trivial, by decide, "<1:p xmlns:1=\"http://purl.oclc.org/dsdl/schematron\"/>",
    by decide +kernel, ?_⟩
  rintro ⟨names, document⟩
  have opening := WellFormed.opening document
  revert opening
  decide

end Document

end Schematron
