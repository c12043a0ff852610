import ConfigBackup.JsonDocuments
import ConfigBackup.RenderedDiff

/-!
The preview of a RACOM configuration. The values beneath marked keys are replaced as a whole
before anything is written, cut or compared, so that nothing that is shown depends on them.
-/

namespace ConfigBackup.RacomRedaction

open CodePoints JsonDocuments JsonText JsonValues RenderedDiff RevisionDisplay

variable {F : Type}

section Program

inductive RacomDriver
  | ripEX2 | ray2 | ray3
deriving DecidableEq, Repr

def RacomDriver.driverId : RacomDriver → String
  | .ripEX2 => "racom_ripex2"
  | .ray2 => "racom_ray2"
  | .ray3 => "racom_ray3"

def ripEX2Markers : List String := ["password", "secret", "key", "community"]

def rayMarkers : List String :=
  ["password", "passwd", "secret", "community", "private", "preshared", "psk", "authkey",
    "auth_key"]

def RacomDriver.markers : RacomDriver → List String
  | .ripEX2 => ripEX2Markers
  | .ray2 => rayMarkers
  | .ray3 => rayMarkers

/-- `any(marker in key.lower() for marker in markers)`. -/
def isMarked (lower : PyText → PyText) (markers : List String) (key : PyText) : Bool :=
  markers.any fun marker => decide (ofString marker <:+: lower key)

def redacted : Json F := .scalar (.str (ofString "<redacted>"))

mutual

/-- `_redact`. -/
def redact (marked : PyText → Bool) : Json F → Json F
  | .obj items => .obj (redactMembers marked items)
  | .arr items => .arr (redactItems marked items)
  | .scalar s => .scalar s

def redactItems (marked : PyText → Bool) : List (Json F) → List (Json F)
  | [] => []
  | v :: rest => redact marked v :: redactItems marked rest

def redactMembers (marked : PyText → Bool) : List (PyText × Json F) → List (PyText × Json F)
  | [] => []
  | (key, v) :: rest =>
    (key, if marked key then redacted else redact marked v) :: redactMembers marked rest

end

def redactForDisplay (format : FloatFormat F) (marked : PyText → Bool) (text : PyText) : PyText :=
  match loads format text with
  | none => ofString "Configuration cannot be displayed safely."
  | some value => dumps format (redact marked value)

/-- A registry that has the RACOM drivers among others. -/
def racomDrivers (format : FloatFormat F) (lower : PyText → PyText) (others : DriverRegistry) :
    DriverRegistry := fun driverId =>
  match [RacomDriver.ripEX2, .ray2, .ray3].find? fun driver => driver.driverId == driverId with
  | some driver => .ok fun text =>
    .ok (redactForDisplay format (isMarked lower driver.markers) text)
  | none => others driverId

end Program

section Redaction

variable {marked : PyText → Bool} {v w : Json F}

theorem redactItems_eq (items : List (Json F)) :
    redactItems marked items = items.map (redact marked) := by
  induction items with
  | nil => rfl
  | cons v rest ih => rw [redactItems, ih, List.map_cons]

theorem redactMembers_eq (items : List (PyText × Json F)) : redactMembers marked items =
    items.map fun item => (item.1, if marked item.1 then redacted else redact marked item.2) := by
  induction items with
  | nil => rfl
  | cons item rest ih => rw [redactMembers, ih, List.map_cons]

theorem keys_redactMembers (items : List (PyText × Json F)) :
    (redactMembers marked items).map Prod.fst = items.map Prod.fst := by
  rw [redactMembers_eq, List.map_map]
  rfl

theorem lookup_redactMembers (key : PyText) (items : List (PyText × Json F)) :
    (redactMembers marked items).lookup key = (items.lookup key).map fun v =>
      if marked key then redacted else redact marked v := by
  induction items with
  | nil => rfl
  | cons item rest ih =>
    obtain ⟨other, v⟩ := item
    rw [redactMembers, List.lookup_cons, List.lookup_cons, ih]
    by_cases hkey : key = other
    · rw [hkey, beq_self_eq_true]
      rfl
    · rw [beq_eq_false_iff_ne.mpr hkey]

theorem valid_redact (hv : v.Valid) : (redact marked v).Valid := by
  induction v using Json.induction with
  | scalar s => exact .scalar s
  | arr items ih =>
    cases hv with | arr hitems =>
    rw [redact, redactItems_eq]
    refine .arr fun w hw => ?_
    obtain ⟨v, hv, rfl⟩ := List.mem_map.mp hw
    exact ih v hv (hitems v hv)
  | obj items ih =>
    cases hv with | obj hkeys hitems =>
    rw [redact]
    refine .obj ?_ fun item hitem => ?_
    · rwa [keys_redactMembers]
    · rw [redactMembers_eq] at hitem
      obtain ⟨⟨key, v⟩, hv, rfl⟩ := List.mem_map.mp hitem
      dsimp only
      split
      · exact .scalar _
      · exact ih key v hv (hitems _ hv)

/-- Steps that do not go beneath a marked key. -/
def Unmarked (marked : PyText → Bool) : Step → Prop
  | .key k => marked k = false
  | .index _ => True

theorem node_redact (v : Json F) : (redact marked v).node = v.node := by
  cases v with
  | scalar s => rfl
  | arr items => rw [redact, Json.node, redactItems_eq, List.length_map, Json.node]
  | obj items => rw [redact, Json.node, keys_redactMembers, Json.node]

theorem child_redact {step : Step} (hstep : Unmarked marked step) :
    (redact marked v).child step = (v.child step).map (redact marked) := by
  cases v with
  | scalar s => cases step <;> rfl
  | arr items =>
    cases step with
    | key k => rfl
    | index i => rw [redact, Json.child, redactItems_eq, List.getElem?_map, Json.child]
  | obj items =>
    cases step with
    | index i => rfl
    | key k =>
      have hk : marked k = false := hstep
      rw [redact, Json.child, lookup_redactMembers, hk, Json.child]
      rfl

/-- What is beneath a marked key is replaced as a whole. -/
theorem child_redact_key {k : PyText} (hk : marked k = true) :
    (redact marked v).child (.key k) = (v.child (.key k)).map fun _ => redacted := by
  cases v with
  | scalar s => rfl
  | arr items => rfl
  | obj items =>
    rw [redact, Json.child, lookup_redactMembers, hk, Json.child]
    rfl

/-- The redaction changes no node that is not beneath a marked key. -/
theorem agree_redact_self (v : Json F) : Agree (Unmarked marked) (redact marked v) v := by
  intro path hpath
  induction path generalizing v with
  | nil => exact congrArg some (node_redact v)
  | cons step path ih =>
    obtain ⟨hstep, hrest⟩ := List.forall_mem_cons.mp hpath
    rw [Json.node?, Json.node?, child_redact hstep]
    cases hchild : v.child step with
    | none => rfl
    | some u => exact ih u hrest

/-- Whether a key is there is part of the node of an object. -/
theorem isSome_child_key (h : v.node = w.node) (k : PyText) :
    (v.child (.key k)).isSome = (w.child (.key k)).isSome := by
  have hkeys : ∀ u : Json F, (u.child (.key k)).isSome = true ↔
      ∃ keys, u.node = .object keys ∧ k ∈ keys := by
    intro u
    cases u with
    | scalar s => exact iff_of_false nofun fun ⟨_, hnode, _⟩ => nomatch hnode
    | arr items => exact iff_of_false nofun fun ⟨_, hnode, _⟩ => nomatch hnode
    | obj items =>
      rw [Json.child, List.lookup_isSome_iff, Json.node]
      constructor
      · rintro ⟨item, hitem, hkey⟩
        rw [beq_iff_eq.mp hkey]
        exact ⟨_, rfl, List.mem_toFinset.mpr (List.mem_map_of_mem hitem)⟩
      · rintro ⟨keys, hnode, hmem⟩
        rw [← Node.object.inj hnode, List.mem_toFinset, List.mem_map] at hmem
        obtain ⟨item, hitem, rfl⟩ := hmem
        exact ⟨item, hitem, beq_self_eq_true _⟩
  rw [Bool.eq_iff_iff, hkeys v, hkeys w, h]

/-- The redactions of two values are the same exactly when the values are, except beneath
marked keys. -/
theorem agree_redact_iff :
    Agree (fun _ => True) (redact marked v) (redact marked w) ↔ Agree (Unmarked marked) v w := by
  constructor
  · intro h
    have hshown : Agree (Unmarked marked) (redact marked v) (redact marked w) :=
      fun path _ => h path fun _ _ => trivial
    exact (agree_redact_self v).symm.trans (hshown.trans (agree_redact_self w))
  · intro h path _
    induction path generalizing v w with
    | nil =>
      rw [Json.node?, Json.node?, node_redact, node_redact, h.node]
    | cons step path ih =>
      rw [Json.node?, Json.node?]
      by_cases hstep : Unmarked marked step
      · rw [child_redact hstep, child_redact hstep]
        cases hv : v.child step with
        | some v' =>
          obtain ⟨w', hw, hagree⟩ := h.child step hstep hv
          rw [hw]
          exact ih hagree (fun _ _ => trivial)
        | none =>
          cases hw : w.child step with
          | none => rfl
          | some w' =>
            obtain ⟨v', hv', -⟩ := h.symm.child step hstep hw
            rw [hv] at hv'
            cases hv'
      · cases step with
        | index i => exact absurd trivial hstep
        | key k =>
          have hk : marked k = true := Bool.not_eq_false _ ▸ hstep
          have hsome := isSome_child_key h.node k
          rw [child_redact_key hk, child_redact_key hk]
          cases hv : v.child (.key k) with
          | none =>
            cases hw : w.child (.key k) with
            | none => rfl
            | some w' =>
              rw [hv, hw] at hsome
              cases hsome
          | some v' =>
            cases hw : w.child (.key k) with
            | none =>
              rw [hv, hw] at hsome
              cases hsome
            | some w' => rfl

/-- Two documents are shown alike exactly when their values are the same, except beneath marked
keys. -/
theorem redactForDisplay_eq_iff {format : FloatFormat F} {text text' : PyText}
    (hv : loads format text = some v) (hw : loads format text' = some w) :
    redactForDisplay format marked text = redactForDisplay format marked text' ↔
      Agree (Unmarked marked) v w := by
  unfold redactForDisplay
  rw [hv, hw]
  exact (dumps_eq_iff format (valid_redact (valid_of_loads hv))
    (valid_redact (valid_of_loads hw))).trans agree_redact_iff

end Redaction

section Display

variable {α : Type} {format : FloatFormat F} {lower : PyText → PyText} {others : DriverRegistry}

/-- The value of a stored JSON artifact. -/
def parsed (format : FloatFormat F) (content : List UInt8) : Option (Json F) :=
  (decode content).bind (loads format)

/-- The preview of a stored artifact, which is truncated where it is too long. -/
def preview (sha256Hex : List UInt8 → String) (drivers : DriverRegistry) (driverId : String)
    (maxBytes : ℕ) (artifact : Option α) (content : List UInt8) :
    Except DisplayFailure (DisplayContent α) :=
  prepareDisplayContent sha256Hex drivers content artifact driverId content.length
    (sha256Hex content) maxBytes true

/-- What a preview shows. -/
def shown (display : DisplayContent α) : PyText × List DisplayLine × ℕ × Bool :=
  (display.text, display.lines, display.displayedSize, display.truncated)

/-- Two previews that cannot be told apart, nor by their difference. -/
structure ShownAlike (difflib : Difflib) (first second : Except DisplayFailure (DisplayContent α)) :
    Prop where
  shown : first.map shown = second.map shown
  diff : ∀ before after, first = .ok before → second = .ok after →
    ∀ beforeLabel afterLabel maxLines,
      buildDisplayDiff difflib before after beforeLabel afterLabel maxLines = ⟨[], false⟩

/-- The redacted document of a content, in which all but what is beneath a marked key is kept. -/
def KeepsUnmarked (format : FloatFormat F) (marked : PyText → Bool) (drivers : DriverRegistry)
    (driverId : String) (content : List UInt8) (value : Json F) : Prop :=
  ∃ document kept, redactStored drivers driverId content = .ok document ∧
    loads format document = some kept ∧ Agree (Unmarked marked) kept value

theorem racomDrivers_driverId (driver : RacomDriver) :
    racomDrivers format lower others driver.driverId = .ok fun text =>
      .ok (redactForDisplay format (isMarked lower driver.markers) text) := by
  have hfind : [RacomDriver.ripEX2, .ray2, .ray3].find? (fun other => other.driverId ==
      driver.driverId) = some driver := by
    cases driver <;> decide
  unfold racomDrivers
  rw [hfind]

theorem redactStored_racom (driver : RacomDriver) {content : List UInt8} {text : PyText}
    (h : decode content = some text) :
    redactStored (racomDrivers format lower others) driver.driverId content =
      .ok (redactForDisplay format (isMarked lower driver.markers) text) := by
  unfold redactStored
  rw [h, racomDrivers_driverId]
  rfl

/-- A preview is made of the redaction alone. -/
theorem preview_congr (sha256Hex : List UInt8 → String) {drivers : DriverRegistry}
    {driverId : String} (maxBytes : ℕ) (artifact artifact' : Option α)
    {content content' : List UInt8}
    (h : redactStored drivers driverId content = redactStored drivers driverId content') :
    (preview sha256Hex drivers driverId maxBytes artifact content).map shown =
      (preview sha256Hex drivers driverId maxBytes artifact' content').map shown := by
  have hintact : ∀ other : List UInt8,
      ¬ (other.length ≠ other.length ∨ sha256Hex other ≠ sha256Hex other) := by simp
  unfold preview prepareDisplayContent
  rw [if_neg (hintact content), if_neg (hintact content'), if_neg (by simp), if_neg (by simp), h]
  cases redactStored drivers driverId content' with
  | error e => rfl
  | ok text =>
    dsimp only
    cases hencode : encode text with
    | none => rfl
    | some bytes =>
      dsimp only
      split
      · cases encode (previewText bytes maxBytes) with
        | none => rfl
        | some front => rfl
      · rfl

theorem shownAlike_of_eq {difflib : Difflib}
    {first second : Except DisplayFailure (DisplayContent α)}
    (h : first.map shown = second.map shown) : ShownAlike difflib first second := by
  refine ⟨h, fun before after hfirst hsecond beforeLabel afterLabel maxLines => ?_⟩
  rw [hfirst, hsecond] at h
  have htext : before.text = after.text := congrArg Prod.fst (Except.ok.inj h)
  have hsame := generated_of_same difflib before after beforeLabel afterLabel
    (congrArg splitlines htext)
  rw [buildDisplayDiff_eq, hsame]
  simp [classified]

theorem keepsUnmarked_racom (driver : RacomDriver) {content : List UInt8} {value : Json F}
    (h : parsed format content = some value) :
    KeepsUnmarked format (isMarked lower driver.markers) (racomDrivers format lower others)
      driver.driverId content value := by
  obtain ⟨text, hdecode, hvalue⟩ := Option.bind_eq_some_iff.mp h
  have hvalid : (redact (isMarked lower driver.markers) value).Valid :=
    valid_redact (valid_of_loads hvalue)
  refine ⟨_, _, redactStored_racom driver hdecode, ?_,
    (agree_sorted hvalid _).trans (agree_redact_self value)⟩
  unfold redactForDisplay
  rw [hvalue]
  exact loads_dumps format hvalid

/-- The previews of two RACOM artifacts whose values are the same except beneath marked keys
cannot be told apart, and everything that is not beneath a marked key is in the document. -/
theorem racom_shownAlike (difflib : Difflib) (sha256Hex : List UInt8 → String)
    (others : DriverRegistry) (driver : RacomDriver) {content content' : List UInt8}
    {value value' : Json F} (hvalue : parsed format content = some value)
    (hvalue' : parsed format content' = some value')
    (h : Agree (Unmarked (isMarked lower driver.markers)) value value')
    (artifact artifact' : Option α) (maxBytes : ℕ) :
    ShownAlike difflib
      (preview sha256Hex (racomDrivers format lower others) driver.driverId maxBytes artifact
        content)
      (preview sha256Hex (racomDrivers format lower others) driver.driverId maxBytes artifact'
        content') ∧
    KeepsUnmarked format (isMarked lower driver.markers) (racomDrivers format lower others)
      driver.driverId content value := by
  refine ⟨shownAlike_of_eq (preview_congr sha256Hex maxBytes artifact artifact' ?_),
    keepsUnmarked_racom driver hvalue⟩
  obtain ⟨text, hdecode, htext⟩ := Option.bind_eq_some_iff.mp hvalue
  obtain ⟨text', hdecode', htext'⟩ := Option.bind_eq_some_iff.mp hvalue'
  rw [redactStored_racom driver hdecode, redactStored_racom driver hdecode',
    (redactForDisplay_eq_iff htext htext').mpr h]

/-- The floats that are whole, as far as they are written without an exponent. -/
def wholeFloats : FloatFormat ℕ where
  repr n := natText n ++ [ofChar '.', ofChar '0']
  parse text := .finite (natValue (text.takeWhile isDigit))
  number n := by
    refine ⟨natText n, [ofChar '.', ofChar '0'], [], (List.append_nil _).symm, ?_, by simp⟩
    refine ⟨⟨[], natText n, rfl, Or.inl rfl, isWhole_natText n⟩, Or.inr ?_, Or.inl rfl⟩
    exact ⟨natText 0, rfl, by decide, fun p hp => isDigit_of_mem_natText hp⟩
  parse_repr n := by
    have hpoint : ∀ p, [ofChar '.', ofChar '0'].head? = some p → isDigit p = false := by
      intro p hp
      rw [← Option.some.inj hp]
      rfl
    rw [(takeWhile_digits (fun p hp => isDigit_of_mem_natText hp) hpoint).1, natValue_natText]

def asciiLower (text : PyText) : PyText :=
  text.map fun p => (toChar? p).elim p fun c => ofChar c.toLower

def radioJson (password : String) : List UInt8 :=
  utf8Bytes ("\x7b\"ip\": [1], \"Password\": ".toList ++ password.toList ++ "\x7d".toList)

def radioValue (password : Json ℕ) : Json ℕ :=
  .obj [(ofString "ip", .arr [.scalar (.int 1)]), (ofString "Password", password)]

theorem racom_shownAlike_password :
    ShownAlike replaceAll
      (preview (fun _ => "") (racomDrivers wholeFloats asciiLower plainDrivers) "racom_ripex2" 20
        (none : Option ℕ) (radioJson "\"admin\""))
      (preview (fun _ => "") (racomDrivers wholeFloats asciiLower plainDrivers) "racom_ripex2" 20
        (none : Option ℕ) (radioJson "[\"a\", 0.0]")) := by
  have hfirst : parsed wholeFloats (radioJson "\"admin\"") =
      some (radioValue (.scalar (.str (ofString "admin")))) := by
    have hdecode : decode (radioJson "\"admin\"") =
        some (ofString "\x7b\"ip\": [1], \"Password\": \"admin\"\x7d") := by decide +kernel
    unfold parsed
    rw [hdecode]
    rfl
  have hsecond : parsed wholeFloats (radioJson "[\"a\", 0.0]") =
      some (radioValue (.arr [.scalar (.str (ofString "a")), .scalar (.float (.finite 0))])) := by
    have hdecode : decode (radioJson "[\"a\", 0.0]") =
        some (ofString "\x7b\"ip\": [1], \"Password\": [\"a\", 0.0]\x7d") := by decide +kernel
    unfold parsed
    rw [hdecode]
    rfl
  have hagree : Agree (Unmarked (isMarked asciiLower RacomDriver.ripEX2.markers))
      (radioValue (.scalar (.str (ofString "admin"))))
      (radioValue (.arr [.scalar (.str (ofString "a")), .scalar (.float (.finite 0))])) :=
    agree_redact_iff.mp (Agree.refl _ _)
  exact (racom_shownAlike replaceAll _ _ .ripEX2 hfirst hsecond hagree none none 20).1

end Display

end ConfigBackup.RacomRedaction
