/-!
# Id schemes

The two ways to number dumped nodes, and their names in settings.
-/

namespace AstDump

/-- How dumped nodes are numbered: 0, 1, 2 and so on in the order of first visits, or by the node's
    position in its arena, whatever is visited first. -/
inductive IdScheme where
  | sequential
  | nodeIndex
  deriving DecidableEq, Repr

/-- A text that names no scheme. -/
structure UnknownScheme where
  text : String
  deriving DecidableEq, Repr

/-- The text of the error. -/
def UnknownScheme.message (e : UnknownScheme) : String :=
  s!"unknown id scheme `{e.text}` (expected `sequential` or `node-index`)"

namespace IdScheme

instance : Inhabited IdScheme := ⟨.sequential⟩

/-- The name of a scheme in settings. -/
def name : IdScheme → String
  | .sequential => "sequential"
  | .nodeIndex => "node-index"

/-- Reads the name of a scheme; nothing but the very name is taken. -/
def parse (text : String) : Except UnknownScheme IdScheme :=
  if text = "sequential" then .ok .sequential
  else if text = "node-index" then .ok .nodeIndex
  else .error ⟨text⟩

theorem parse_eq_ok_iff {text : String} {s : IdScheme} :
    parse text = .ok s ↔ text = s.name := by
  unfold parse
  split
  · cases s <;> simp_all [name]
  · split <;> cases s <;> simp_all [name]

theorem parse_eq_error_iff {text : String} {e : UnknownScheme} :
    parse text = .error e ↔ (∀ s : IdScheme, text ≠ s.name) ∧ e = ⟨text⟩ := by
  constructor
  · intro h
    refine ⟨?_, ?_⟩
    · intro s hs
      rw [parse_eq_ok_iff.2 hs] at h
      cases h
    · unfold parse at h
      split at h
      · cases h
      · split at h
        · cases h
        · exact (Except.error.inj h).symm
  · rintro ⟨hne, rfl⟩
    exact (if_neg (hne .sequential)).trans (if_neg (hne .nodeIndex))

end IdScheme

end AstDump
