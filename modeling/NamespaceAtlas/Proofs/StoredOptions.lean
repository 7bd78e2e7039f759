-- Options as documents. What is written of them is read back, the word of the species
-- with every bit it has.
import NamespaceAtlas.Document.Readings
import NamespaceAtlas.Document.Forms
import NamespaceAtlas.Proofs.Text.Utf8
import Mathlib.Data.List.Nodup

namespace NamespaceAtlas

/-! ## Numbers, records and values that may be absent -/

namespace Document

theorem natUpTo?_nat {limit n : Nat} (h : n ≤ limit) : (nat n).natUpTo? limit = some n := by
  simp [nat, natUpTo?, int?, h]

theorem uint64?_nat (w : UInt64) : (nat w.toNat).uint64? = some w := by
  have h : w.toNat ≤ UInt64.size - 1 := Nat.le_sub_one_of_lt w.toNat_lt
  rw [uint64?, natUpTo?_nat h, Option.map_some, UInt64.ofNat_toNat]

theorem uint32?_nat (w : UInt32) : (nat w.toNat).uint32? = some w := by
  have h : w.toNat ≤ UInt32.size - 1 := Nat.le_sub_one_of_lt w.toNat_lt
  rw [uint32?, natUpTo?_nat h, Option.map_some, UInt32.ofNat_toNat]

/-- A record that has each name once gives its values in order. -/
theorem fieldsOf?_record {names : List String} {fields : List (String × Document)}
    (hnames : fields.map (·.1) = names) (hnodup : names.Nodup) :
    fieldsOf? names (record fields) = some (fields.map fun field => some field.2) := by
  subst hnames
  have hfind : ∀ field ∈ fields, fields.reverse.find? (·.1 == field.1) = some field := by
    intro field hfield
    cases hfound : fields.reverse.find? (·.1 == field.1) with
    | none =>
      have hnone := List.find?_eq_none.1 hfound field (List.mem_reverse.2 hfield)
      exact absurd (beq_self_eq_true field.1) hnone
    | some found =>
      have hmem := List.mem_reverse.1 (List.mem_of_find?_eq_some hfound)
      have hname : (found.1 == field.1) = true := by simpa using List.find?_some hfound
      rw [List.inj_on_of_nodup_map hnodup hmem hfield (beq_iff_eq.1 hname)]
  rw [fieldsOf?, List.map_map]
  refine congrArg some (List.map_congr_left fun field hfield => ?_)
  rw [Function.comp_apply, hfind field hfield, Option.map_some]

theorem allFieldsOf?_record {names : List String} {fields : List (String × Document)}
    (hnames : fields.map (·.1) = names) (hnodup : names.Nodup) :
    allFieldsOf? names (record fields) = some (fields.map (·.2)) := by
  have hall : ∀ l : List (String × Document),
      (l.map fun field => some field.2).mapM id = some (l.map (·.2)) := by
    intro l
    induction l with
    | nil => rfl
    | cons field rest ih => simp [ih]
  rw [allFieldsOf?, fieldsOf?_record hnames hnodup]
  exact hall fields

theorem optional?_optional {α : Type} {read : Document → Option α} {write : α → Document}
    (hread : ∀ a, read (write a) = some a) (hnull : ∀ a, write a ≠ null) (value : Option α) :
    (optional write value).optional? read = some value := by
  cases value with
  | none => rfl
  | some a =>
    rw [optional, optional?, hread a, Option.map_some]
    exact hnull a

end Document

open Document

/-! ## Options -/

theorem Span.carried?_self (s : Span) : carried? s.seconds.toNat s.nanos.toNat = some s := by
  obtain ⟨seconds, nanos, hnanos⟩ := s
  have hwhole : nanos.toNat / 1000000000 = 0 := Nat.div_eq_of_lt hnanos
  have hrest : nanos.toNat % 1000000000 = nanos.toNat := Nat.mod_eq_of_lt hnanos
  have hfits : seconds.toNat < UInt64.size := seconds.toNat_lt
  simp [carried?, hwhole, hrest, hfits]

theorem Span.ofDocument?_document (s : Span) : Span.ofDocument? s.document = some s := by
  have hnames : (s.document.names.all fun name => name == "secs" || name == "nanos") = true := rfl
  have hfields : s.document.allFieldsOf? ["secs", "nanos"] =
      some [nat s.seconds.toNat, nat s.nanos.toNat] := allFieldsOf?_record rfl (by decide)
  simp [ofDocument?, hfields, hnames, uint64?_nat, uint32?_nat, carried?_self]

theorem Path.ofDocument?_of_document? {p : Path} {d : Document} (h : p.document? = some d) :
    Path.ofDocument? d = some p := by
  obtain ⟨text, htext, rfl⟩ := Option.map_eq_some_iff.1 h
  exact congrArg (fun bytes => some (Path.mk bytes)) (Bytes.text?_eq_some_iff.1 htext).symm

/-- Options that are written down are read back. -/
theorem Options.ofDocument?_of_document? {o : Options} {d : Document} (h : o.document? = some d) :
    Options.ofDocument? d = some o := by
  obtain ⟨procfs, hprocfs, heq⟩ := Option.bind_eq_some_iff.1 h
  cases heq
  have hlimit := optional?_optional Span.ofDocument?_document (fun _ => nofun) o.limit
  rw [ofDocument?, fieldsOf?_record]
  case hnames => rfl
  case hnodup => decide
  simp [uint32?_nat, bool?, hlimit, Span.ofDocument?_document,
    Path.ofDocument?_of_document? hprocfs]

/-- Any word is read as the word of the species. -/
theorem Options.exists_ofDocument?_species (a : Selection) :
    ∃ d o, Options.ofDocument? d = some o ∧ o.species = a := by
  have hprocfs : Path.proc.document? = some (.text "/proc") :=
    congrArg (Option.map Document.text) (Bytes.text?_ofText "/proc")
  have hwritten : ∃ d, Options.document? { species := a } = some d := by
    rw [document?, hprocfs]
    exact ⟨_, rfl⟩
  obtain ⟨d, hd⟩ := hwritten
  exact ⟨d, _, ofDocument?_of_document? hd, rfl⟩

end NamespaceAtlas
