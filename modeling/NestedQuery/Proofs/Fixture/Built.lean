import NestedQuery.Fixture.Load
import NestedQuery.Proofs.Outcome
import NestedQuery.Proofs.Schema.Sound

/-!
# Schemas of loaded fixtures

* `Fixture.ModelForm.built`      the declarations in a fixture are made step by step;
* `Fixture.schema_of_database`   rows leave the schema as it is;
* `Fixture.built_of_database`    a loaded fixture has a schema of such declarations.
-/

namespace NestedQuery

theorem Declaration.Built.foldl {α : Type} {step : Declaration → α → Declaration}
    (hstep : ∀ d a, Declaration.Built d → Declaration.Built (step d a)) {d : Declaration}
    (h : d.Built) (items : List α) : (items.foldl step d).Built := by
  induction items generalizing d with
  | nil => exact h
  | cons a rest ih => exact ih (hstep d a h)

theorem Store.schema_of_insert {s s' : Store} {model : String} {row : Row} {key : List Value}
    (h : s.insert model row = .ok (s', key)) : s'.schema = s.schema := by
  obtain ⟨m, -, h⟩ := bind_eq_ok.mp h
  dsimp only at h
  split at h
  · cases h
  · cases h
    rfl

namespace Fixture

theorem built_of_addAttributes {forms : List (String × TypeForm)} {d d' : Declaration}
    (h : addAttributes d forms = .ok d') (hd : d.Built) : d'.Built := by
  induction forms generalizing d with
  | nil =>
    cases h
    exact hd
  | cons e rest ih =>
    obtain ⟨type, -, h⟩ := bind_eq_ok.mp h
    exact ih h (hd.addAttribute e.1 type)

theorem built_addRelationship {d : Declaration} (hd : d.Built) (e : String × RelationshipForm) :
    (addRelationship d e.1 e.2).Built :=
  Declaration.Built.addRelationship _ _ _ _ _ hd

/-- the declarations in a fixture are made step by step -/
theorem ModelForm.built {m : ModelForm} {d : Declaration} (h : m.declaration = .ok d) :
    d.Built := by
  obtain ⟨d', hattributes, rfl⟩ := map_eq_ok.mp h
  have hkey : (m.primaryKey.foldl Declaration.addKeyColumn d').Built :=
    (built_of_addAttributes hattributes (.named _)).foldl
      (fun _ column hd => hd.addKeyColumn column) m.primaryKey
  have hrelationships := hkey.foldl (fun _ e hd => built_addRelationship hd e)
    m.relationships.entries
  dsimp only
  split
  · exact hrelationships.withParent _
  · exact hrelationships

theorem built_of_declarationsOf {forms : List ModelForm} {ds : List Declaration}
    (h : declarationsOf forms = .ok ds) : ∀ d ∈ ds, d.Built := by
  induction forms generalizing ds with
  | nil =>
    cases h
    exact nofun
  | cons m rest ih =>
    obtain ⟨d, hd, h⟩ := bind_eq_ok.mp h
    obtain ⟨others, hothers, rfl⟩ := map_eq_ok.mp h
    exact List.forall_mem_cons.mpr ⟨ModelForm.built hd, ih hothers⟩

theorem built_of_schema {f : Fixture} {s : Schema} (h : f.schema = .ok s) : s.Built := by
  obtain ⟨ds, hds, h⟩ := bind_eq_ok.mp h
  refine ⟨ds, built_of_declarationsOf hds, ?_⟩
  cases hs : Schema.ofDeclarations ds with
  | error fault =>
    rw [hs] at h
    cases h
  | ok s' =>
    rw [hs] at h
    cases h
    rfl

/-! ## rows -/

variable {c : Coercions}

theorem schema_of_insertRows {model : String} {rows : List (Dict Json)} {index : Nat}
    {s s' : Store} (h : insertRows c model index s rows = .ok s') : s'.schema = s.schema := by
  induction rows generalizing index s with
  | nil =>
    cases h
    rfl
  | cons fields rest ih =>
    rw [insertRows] at h
    split at h
    · cases h
    · obtain ⟨⟨s₁, key⟩, hinsert, h⟩ := bind_eq_ok.mp h
      exact (ih h).trans (Store.schema_of_insert hinsert)

theorem schema_of_insertTables {tables : List (String × List (Dict Json))} {s s' : Store}
    (h : insertTables c s tables = .ok s') : s'.schema = s.schema := by
  induction tables generalizing s with
  | nil =>
    cases h
    rfl
  | cons e rest ih =>
    obtain ⟨s₁, hrows, h⟩ := bind_eq_ok.mp h
    exact (ih h).trans (schema_of_insertRows hrows)

/-- rows leave the schema as it is -/
theorem schema_of_database {f : Fixture} {d : Database} (h : f.database c = .ok d) :
    f.schema = .ok d.schema := by
  obtain ⟨s, hs, h⟩ := bind_eq_ok.mp h
  obtain ⟨store, hstore, rfl⟩ := map_eq_ok.mp h
  rw [hs, Database.schema, schema_of_insertTables hstore, Store.empty]

/-- a loaded fixture has a schema of declarations that were made step by step -/
theorem built_of_database {f : Fixture} {d : Database} (h : f.database c = .ok d) :
    d.schema.Built :=
  built_of_schema (schema_of_database h)

end Fixture

end NestedQuery
