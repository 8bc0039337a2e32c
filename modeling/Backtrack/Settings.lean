namespace Backtrack.Settings

/-- The setting is on for `1`, `true` and `yes` in any mixture of cases. No character outside ASCII has
one of these letters for its lower case. -/
def debugging : Option String → Bool
  | none => false
  | some setting => ["1", "true", "yes"].contains (String.ofList (setting.toList.map Char.toLower))

end Backtrack.Settings
