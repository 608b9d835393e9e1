import Schematron.Config.Kind
import Schematron.Config.OutputOptions
import Schematron.Proofs.Decimal.Shortest
import Schematron.Proofs.Config.Record

/-!
# Configuration read back

What is written to configuration is read back from its text. A record is read back field
by field: `Restores` says that its members are read as members that give it back, and that
these can stand behind the name of a kind. A number keeps its form, because an integer is
written without a point and a decimal with a point or an exponent. Only a bound that is no
finite number is lost: it is written as `null`.
-/

namespace Schematron

open Json (Reads)

/-! ### Numbers -/

namespace Number

def isFinite : Number → Bool
  | integer _ => true
  | decimal x => x.isFinite

/-- An integer of 64 bits, signed or unsigned, is within double precision. -/
theorem isKept_integer {n : ℤ} (word : n.natAbs < UInt64.size) (depth : ℕ) :
    (Json.integer n).isKept depth = true := by
  apply Binary64.isFinite_ofDecimal
  have small : (n.natAbs : ℚ) < 2 ^ 64 := by exact_mod_cast word
  rw [Decimal.size, zpow_zero, mul_one]
  refine small.trans ?_
  rw [← zpow_natCast]
  exact (zpow_lt_zpow_iff_right₀ one_lt_two).mpr (by norm_num)

theorem ofJson?_integer (n : Int64) : ofJson? (.integer n.toInt) = some (.integer n) := by
  have inside : isInRange n.toInt = true := by
    rw [isInRange, Bool.and_eq_true]
    exact ⟨decide_eq_true n.minValue_le_toInt, decide_eq_true n.toInt_le⟩
  rw [ofJson?, if_pos inside, Int64.ofInt_toInt]

theorem ofJson?_shortest? {x : Binary64} {d : Decimal} (found : x.shortest? .even = some d) :
    ofJson? (.decimal d.retold) = some (.decimal x) := by
  have same := Binary64.ofDecimal_shortest? found d.negative_retold d.size_retold
  rw [ofJson?, ofDecimal?, same, if_pos (Binary64.isFinite_of_shortest? found)]

/-- What the text of a bound is read as. It is a value that can be kept, and it gives the bound
back unless that is no finite number. -/
theorem exists_reads_boundToJson (b : Option Number) :
    ∃ j, Reads (boundToJson b) j ∧ boundOfJson? j = some (b.filter isFinite) ∧
      ∀ depth, j.isKept depth = true := by
  rcases b with none | n | x
  · exact ⟨.null, .null, rfl, fun _ => rfl⟩
  · have word : n.toInt.natAbs < UInt64.size := by
      have least := n.le_toInt
      have greatest := n.toInt_lt
      show n.toInt.natAbs < 2 ^ 64
      omega
    refine ⟨.integer n.toInt, .integer _, ?_, isKept_integer word⟩
    exact congrArg (Option.map some) (ofJson?_integer n)
  · cases found : x.shortest? .even with
    | none =>
        have lost := Binary64.shortest?_eq_none_iff.mp found
        refine ⟨.null, ?_, ?_, fun _ => rfl⟩
        · rw [boundToJson, toJson, found]
          exact .null
        · rw [Option.filter_some, isFinite, lost]
          rfl
    | some d =>
        have finite := Binary64.isFinite_of_shortest? found
        have same := Binary64.ofDecimal_shortest? found d.negative_retold d.size_retold
        refine ⟨.decimal d.retold, ?_, ?_, fun _ => ?_⟩
        · rw [boundToJson, toJson, found]
          exact .decimal fun nothing => (Binary64.exponent_of_shortest? found nothing).le
        · rw [Option.filter_some, isFinite, finite]
          exact congrArg (Option.map some) (ofJson?_shortest? found)
        · rw [Json.isKept, same, finite]

end Number

/-! ### Records -/

namespace Config

variable {α : Type}

/-- The members are read as members that give the value back. Those can stand behind the name of
a kind: they can be kept, and none of them is named `kind`. -/
def Restores (read : Json → Option α) (written : List (String × Json)) (x : α) : Prop :=
  ∃ members, List.Forall₂ Reads.Member written members ∧ read (.ofMembers members) = some x ∧
    ∀ m ∈ members, m.1 ≠ "kind" ∧ m.2.isKept (Json.keptDepth - 1) = true

namespace Restores

variable {read : Json → Option α} {written : List (String × Json)} {x : α}

theorem parse (h : Restores read written x) :
    (Json.parse (Json.ofMembers written).print).bind read = some x := by
  obtain ⟨members, each, same, -⟩ := h
  rw [(Reads.ofMembers each).parse_print]
  exact same

/-- What is built from the value is read back by the reader that builds it. -/
theorem map {β : Type} (h : Restores read written x) (build : α → β) :
    Restores (fun j => (read j).map build) written (build x) := by
  obtain ⟨members, each, same, content⟩ := h
  exact ⟨members, each, congrArg (Option.map build) same, content⟩

/-- A value without members of its own is read back. -/
theorem nothing (empty : read (.ofMembers []) = some x) : Restores read [] x :=
  ⟨[], .nil, empty, nofun⟩

/-- A record is read back if each of its fields is set from what it is read as. -/
theorem ofFields {fields : List (Field α)} {values : List Json} {start record : α}
    (distinct : ("kind" :: fields.flatMap Field.names).Nodup)
    (each : List.Forall₂ (fun f v => Reads (f.get record) v ∧
      v.isKept (Json.keptDepth - 1) = true) fields values)
    (set : (fields.zip values).foldlM (fun record e => e.1.set e.2 record) start = some x) :
    Restores (readRecord fields start) (writeRecord fields record) x := by
  have told : (fields.zip values).map Prod.fst = fields := List.map_fst_zip each.length_eq.le
  have own : ∀ e ∈ fields.zip values, Reads (e.1.get record) e.2 ∧
      e.2.isKept (Json.keptDepth - 1) = true :=
    fun e mem => (List.forall₂_iff_zip.mp each).2 mem
  generalize fields.zip values = entries at own set told
  subst told
  rw [List.flatMap_map] at distinct
  obtain ⟨untagged, distinct⟩ := List.nodup_cons.mp distinct
  refine ⟨entries.map Entry.member, reads_writeRecord fun e mem => (own e mem).1, ?_, ?_⟩
  · rw [readRecord_members distinct, set]
  · intro m mem
    obtain ⟨e, among, rfl⟩ := List.mem_map.mp mem
    refine ⟨fun tag => untagged ?_, (own e among).2⟩
    exact List.mem_flatMap.mpr ⟨e, among, tag ▸ e.name_mem_names⟩

end Restores

theorem readTexts_map (texts : List String) :
    readTexts (.array (texts.map Json.ofString)) = some texts := by
  rw [readTexts]
  induction texts with
  | nil => rfl
  | cons text texts ih =>
      rw [List.map_cons, List.mapM_cons, ih]
      rfl

theorem readWord_ofNat {n : ℕ} (word : n < UInt64.size) : readWord (.ofNat n) = some n := by
  have inside : (0 ≤ (n : ℤ) && (n : ℤ) < (UInt64.size : ℤ)) = true := by
    rw [Bool.and_eq_true]
    exact ⟨decide_eq_true (by omega), decide_eq_true (by exact_mod_cast word)⟩
  rw [Json.ofNat, readWord, if_pos inside, Int.toNat_natCast]

theorem readChar_toString (c : Char) : readChar (.ofString c.toString) = some c := by
  simp [readChar, Json.ofString, readText]

end Config

namespace Json

theorem areKept_map_ofString (depth : ℕ) (texts : List String) :
    areKept depth (texts.map ofString) = true := by
  induction texts with
  | nil => rfl
  | cons text texts ih => exact ih

theorem membersAreKept_named {depth : ℕ} {members : List (String × Json)}
    (kept : ∀ m ∈ members, m.2.isKept depth = true) :
    membersAreKept depth (Reads.named members) = true := by
  induction members with
  | nil => rfl
  | cons m later ih =>
      have rest := ih fun m mem => kept m (List.mem_cons_of_mem _ mem)
      rw [Reads.named, List.map_cons, membersAreKept, memberIsKept, kept m List.mem_cons_self]
      exact rest

end Json

/-- A set is read back with all its texts, in their order. -/
theorem ValueSet.restores (s : ValueSet) : Config.Restores ofJson? s.toMembers s := by
  have texts : Reads (.array (s.values.map Json.ofString))
      (.array (s.values.map Json.ofString)) := by
    refine .array (List.forall₂_same.mpr fun j mem => ?_)
    obtain ⟨text, -, rfl⟩ := List.mem_map.mp mem
    exact .string text
  refine .ofFields (by simp [fields, Config.Field.names])
    (.cons ⟨texts, Json.areKept_map_ofString _ s.values⟩ .nil) ?_
  show ((Config.readTexts (.array (s.values.map Json.ofString))).map mk).bind some = some s
  rw [Config.readTexts_map]
  rfl

namespace NumericRange

/-- The range without the bounds that are no finite numbers. -/
def finiteBounds (r : NumericRange) : NumericRange where
  even := r.even
  odd := r.odd
  equalTo := r.equalTo.filter Number.isFinite
  greaterThan := r.greaterThan.filter Number.isFinite
  greaterThanOrEqualTo := r.greaterThanOrEqualTo.filter Number.isFinite
  lessThan := r.lessThan.filter Number.isFinite
  lessThanOrEqualTo := r.lessThanOrEqualTo.filter Number.isFinite
  otherThan := r.otherThan.filter Number.isFinite

@[simp] theorem bound_finiteBounds (r : NumericRange) (c : Comparison) :
    r.finiteBounds.bound c = (r.bound c).filter Number.isFinite := by
  cases c <;> rfl

/-- Bounds are set one after the other, each from what it is read as. -/
theorem foldlM_set_field (r : NumericRange) {j : Comparison → Json}
    (same : ∀ c, Number.boundOfJson? (j c) = some ((r.bound c).filter Number.isFinite))
    (comparisons : List Comparison) (start : NumericRange) :
    (comparisons.map fun c => (c.field, j c)).foldlM (fun s e => e.1.set e.2 s) start =
      some (comparisons.foldl (fun s c => s.withBound c (r.finiteBounds.bound c)) start) := by
  induction comparisons generalizing start with
  | nil => rfl
  | cons c later ih =>
      have first : c.field.set (j c) start = some (start.withBound c (r.finiteBounds.bound c)) := by
        rw [bound_finiteBounds]
        show (Number.boundOfJson? (j c)).map _ = _
        rw [same c]
        rfl
      rw [List.map_cons, List.foldlM_cons, List.foldl_cons, first]
      exact ih _

/-- A range is read back with the bounds that are finite numbers. -/
theorem restores (r : NumericRange) : Config.Restores ofJson? r.toMembers r.finiteBounds := by
  choose j reads same kept using fun c => Number.exists_reads_boundToJson (r.bound c)
  refine @Config.Restores.ofFields _ _ fields (.bool r.even :: .bool r.odd :: Comparison.all.map j)
    _ r ?_ ?_ ?_
  · simp [fields, Config.Field.names, Comparison.all, Comparison.field, Comparison.name]
  · refine .cons ⟨.bool r.even, rfl⟩ (.cons ⟨.bool r.odd, rfl⟩ ?_)
    rw [List.forall₂_map_left_iff, List.forall₂_map_right_iff, List.forall₂_same]
    exact fun c _ => ⟨reads c, kept c _⟩
  · rw [fields, List.zip_cons_cons, List.zip_cons_cons, List.zip_map']
    exact foldlM_set_field r same Comparison.all { unbounded with even := r.even, odd := r.odd }

end NumericRange

namespace OutputOptions

/-- Options are read back if the width of the indentation is a machine word. -/
theorem restores {o : OutputOptions} (word : o.indent < UInt64.size) :
    Config.Restores ofJson? (Config.writeRecord fields o) o := by
  have width : (Json.integer o.indent).isKept (Json.keptDepth - 1) = true :=
    Number.isKept_integer (by rwa [Int.natAbs_natCast]) _
  -- Every option is read as it is written.
  refine .ofFields (by simp [fields, Config.Field.names])
    (.cons ⟨.integer o.indent, width⟩ (.cons ⟨.string o.indentChar.toString, rfl⟩
      (.cons ⟨.bool o.xmlDeclaration, rfl⟩ (.cons ⟨.string o.nsPrefix, rfl⟩
        (.cons ⟨.string o.namespaceUri, rfl⟩ .nil))))) ?_
  rw [fields]
  have width : Config.readWord (.integer o.indent) = some o.indent := Config.readWord_ofNat word
  simp only [List.zip_cons_cons, List.zip_nil_right, List.foldlM_cons, List.foldlM_nil, width,
    Config.readChar_toString, Option.map_some, Option.bind_eq_bind, Option.bind_some]
  rfl

end OutputOptions

/-! ### Kinds -/

namespace Kind

/-- The kind without the bounds that are no finite numbers. -/
def finiteBounds : Kind → Kind
  | numericRange r => numericRange r.finiteBounds
  | k => k

/-- The content of a kind is read back by the name of the kind. -/
theorem restores_content (k : Kind) :
    Config.Restores (ofContent? k.name) k.contentMembers k.finiteBounds := by
  cases k with
  | scope => exact .nothing rfl
  | requiredPresence => exact .nothing rfl
  | optionalPresence => exact .nothing rfl
  | forbiddenPresence => exact .nothing rfl
  | setInclusion s => exact s.restores.map setInclusion
  | setExclusion s => exact s.restores.map setExclusion
  | numericRange r => exact r.restores.map numericRange

/-- The only member that names a kind decides it, wherever it stands. -/
theorem ofJson?_object {members : List (Option String × Json)} {tag : Option String}
    {name : String} (kept : (Json.object members).isKept Json.keptDepth = true)
    (tags : members.filter isTag = [(tag, .ofString name)]) :
    ofJson? (.object members) =
      ofContent? name (.object (members.filter fun m => !isTag m)) := by
  rw [ofJson?, if_pos kept, tags]
  rfl

/-- An object that starts with the name of a kind holds the content of the kind behind it. -/
theorem ofJson?_ofMembers {members : List (String × Json)}
    (content : ∀ m ∈ members, m.1 ≠ "kind" ∧ m.2.isKept (Json.keptDepth - 1) = true)
    (name : String) :
    ofJson? (.ofMembers (("kind", .ofString name) :: members)) =
      ofContent? name (.ofMembers members) := by
  have kept : (Json.ofMembers (("kind", .ofString name) :: members)).isKept Json.keptDepth = true :=
    Json.membersAreKept_named (List.forall_mem_cons.mpr ⟨rfl, fun m mem => (content m mem).2⟩)
  have untagged : ∀ m ∈ Reads.named members, isTag m = false := by
    intro m mem
    obtain ⟨m, among, rfl⟩ := List.mem_map.mp mem
    simpa [isTag] using (content m among).1
  have tags : ((some "kind", .ofString name) :: Reads.named members).filter isTag =
      [(some "kind", .ofString name)] := by
    rw [List.filter_cons_of_pos rfl, List.filter_eq_nil_iff.mpr]
    exact fun m mem => by simp [untagged m mem]
  have others : ((some "kind", .ofString name) :: Reads.named members).filter
      (fun m => !isTag m) = Reads.named members := by
    rw [List.filter_cons_of_neg (by simp [isTag]), List.filter_eq_self]
    exact fun m mem => by simp [untagged m mem]
  exact (ofJson?_object kept tags).trans
    (congrArg (fun members => ofContent? name (.object members)) others)

/-- A kind is read back with the bounds that are finite numbers. -/
theorem parse_toJson (k : Kind) :
    (Json.parse k.toJson.print).bind ofJson? = some k.finiteBounds := by
  obtain ⟨members, each, same, content⟩ := k.restores_content
  have tagged : List.Forall₂ Reads.Member (("kind", Json.ofString k.name) :: k.contentMembers)
      (("kind", Json.ofString k.name) :: members) := .cons ⟨rfl, .string k.name⟩ each
  rw [toJson, (Reads.ofMembers tagged).parse_print, Option.bind_some, ofJson?_ofMembers content]
  exact same

end Kind

/-- What is written to configuration is read back from its text: kinds, ranges, sets and options
with all their strings and numbers. Only a bound that is no finite number is lost, and it leaves
no bound for its comparison. -/
theorem Config.restored :
    (∀ k : Kind, (Json.parse k.toJson.print).bind Kind.ofJson? = some k.finiteBounds) ∧
    (∀ r : NumericRange,
      (Json.parse r.toJson.print).bind NumericRange.ofJson? = some r.finiteBounds) ∧
    (∀ s : ValueSet, (Json.parse s.toJson.print).bind ValueSet.ofJson? = some s) ∧
    ∀ o : OutputOptions, o.indent < UInt64.size →
      (Json.parse o.toJson.print).bind OutputOptions.ofJson? = some o := by
  refine ⟨Kind.parse_toJson, fun r => ?_, fun s => ?_, fun o word => ?_⟩
  · exact r.restores.parse
  · exact s.restores.parse
  · exact (OutputOptions.restores word).parse

/-- Two as a decimal and the least integer are kept, an infinite bound is lost. Options with
control characters and quotes are read back. -/
theorem Config.restored_without_infinity :
    (Json.parse (Kind.numericRange { NumericRange.unbounded with
        even := true
        equalTo := some (.decimal (.finite false 1024 0))
        greaterThan := some (.decimal (.infinite true))
        lessThan := some (.integer Int64.minValue) }).toJson.print).bind Kind.ofJson? =
      some (.numericRange { NumericRange.unbounded with
        even := true
        equalTo := some (.decimal (.finite false 1024 0))
        lessThan := some (.integer Int64.minValue) }) ∧
    (Json.parse (OutputOptions.mk 3 '\t' false "\"\\" "\x00\x1f").toJson.print).bind
      OutputOptions.ofJson? = some (.mk 3 '\t' false "\"\\" "\x00\x1f") :=
  ⟨Config.restored.1 _, Config.restored.2.2.2 _ (by decide)⟩

end Schematron
