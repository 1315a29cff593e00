import PolicyBundle.Proofs.Policy.Scanning

/-! A module read once more: in another file, and in the dialect that a manifest records for the one
that it was read in. The two dialects need not be the same, but the same rules need `if` in them. -/

namespace PolicyBundle.Policy

namespace Dialect

/-- The dialect that a manifest records for a dialect. -/
def recorded (d : Dialect) : Dialect :=
  if d.effective = .v0 then .v0 else .v1

theorem ofManifest?_manifestValue (d : Dialect) : ofManifest? d.manifestValue = some d.recorded := by
  cases d <;> rfl

theorem requiresIf_recorded (d : Dialect) : d.recorded.requiresIf = d.requiresIf := by
  cases d <;> rfl

/-- A manifest records a dialect of the same effect, but for the one that it has no value for. -/
theorem effective_recorded {d : Dialect} (h : d ≠ .v0CompatV1) :
    d.recorded.effective = d.effective := by
  cases d with
  | v0CompatV1 => exact absurd rfl h
  | _ => rfl

theorem manifestValue_recorded (d : Dialect) : d.recorded.manifestValue = d.manifestValue := by
  cases d <;> rfl

end Dialect

namespace Scan

variable {dialect other : Dialect} {s t : Scan}

theorem headFault?_congr (h : other.requiresIf = dialect.requiresIf) (s : Scan) (line : Line) :
    s.headFault? other line = s.headFault? dialect line := by
  have hApplies : appliesV1 other s.imports = appliesV1 dialect s.imports := by
    rw [appliesV1, appliesV1, h]
  rw [headFault?, headFault?, ruleFault?, ruleFault?, hApplies]

/-- A line that is read has no fault. -/
theorem Reads.noFault {line : Line} (hReads : Reads dialect s line t)
    (hCode : s.readsCode line = true) : s.headFault? dialect line = none := by
  rw [readsCode, Bool.and_eq_true, Bool.and_eq_true, Bool.not_eq_true'] at hCode
  obtain ⟨⟨hInk, hPackage⟩, hNoImport⟩ := hCode
  cases hReads with
  | blank hBlank =>
      rw [hBlank] at hInk
      cases hInk
  | package _ hFirst _ =>
      rw [hFirst] at hPackage
      cases hPackage
  | importLine _ _ hImport _ =>
      rw [hImport] at hNoImport
      cases hNoImport
  | code _ _ _ hFault => exact hFault

/-- A line that another dialect finds no fault with is read by it in the same way. -/
theorem Reads.redialect_of_noFault {line : Line} (hReads : Reads dialect s line t)
    (hFault : s.readsCode line = true → s.headFault? other line = none) :
    Reads other s line t := by
  cases hReads with
  | blank hBlank => exact .blank hBlank
  | package hCode hFirst hName => exact .package hCode hFirst hName
  | importLine hCode hPackage hImport hFound => exact .importLine hCode hPackage hImport hFound
  | code hCode hPackage hImport _ =>
      refine .code hCode hPackage hImport (hFault ?_)
      rw [readsCode, hCode, hPackage, hImport]
      rfl

/-- A line is read in the same way wherever the same rules need `if`. -/
theorem Reads.redialect (h : other.requiresIf = dialect.requiresIf) {line : Line}
    (hReads : Reads dialect s line t) : Reads other s line t := by
  apply hReads.redialect_of_noFault
  intro hCode
  rw [headFault?_congr h]
  exact hReads.noFault hCode

theorem ReadsAll.redialect (h : other.requiresIf = dialect.requiresIf) {lines : List Line}
    (hReads : ReadsAll dialect s lines t) : ReadsAll other s lines t := by
  induction hReads with
  | nil s => exact .nil s
  | cons first _ ih => exact .cons (first.redialect h) ih

end Scan

namespace Module

variable {path source : String} {dialect : Dialect} {m : Module}

/-- The module of the same source in another file, read in another dialect. -/
def moved (m : Module) (path : String) (dialect : Dialect) : Module :=
  { m with path := path, dialect := dialect }

@[simp] theorem package_moved (m : Module) (path : String) (dialect : Dialect) :
    (m.moved path dialect).package = m.package := rfl

theorem parse_path (h : parse path source dialect = .ok m) : m.path = path := by
  obtain ⟨s, name, -, -, rfl⟩ := parse_eq_ok_iff.mp h
  rfl

theorem parse_source (h : parse path source dialect = .ok m) : m.source = source := by
  obtain ⟨s, name, -, -, rfl⟩ := parse_eq_ok_iff.mp h
  rfl

/-- A module reads the same in every file, and in every dialect where the same rules need `if`. -/
theorem parse_moved {other : Dialect} (h : other.requiresIf = dialect.requiresIf)
    (hParse : parse path source dialect = .ok m) (file : String) :
    parse file source other = .ok (m.moved file other) := by
  obtain ⟨s, name, hReads, hName, rfl⟩ := parse_eq_ok_iff.mp hParse
  exact parse_eq_ok_iff.mpr ⟨s, name, hReads.redialect h, hName, rfl⟩

end Module

end PolicyBundle.Policy
