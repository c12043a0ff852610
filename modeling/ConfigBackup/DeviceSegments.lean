import ConfigBackup.RecordedPaths

/-!
The device segment of a remote path. Whatever a device is called, its segment is one plain
component of a path, and it is read back as the segment of the same device.
-/

namespace ConfigBackup.DeviceSegments

open DestinationPaths PosixPaths RecordedPaths Text

variable {nfkd : String → String} {deviceName : Option String} {deviceId : ℕ} {s : List Char}

/-- One component of a path, of plain characters, between two letters or digits. -/
structure DeviceSegment (s : List Char) : Prop where
  chars : ∀ c ∈ s, c.isAlphanum = true ∨ c = '.' ∨ c = '_' ∨ c = '-'
  head : ∀ c, s.head? = some c → c.isAlphanum = true
  last : ∀ c, s.getLast? = some c → c.isAlphanum = true
  component : components s = [s]
  ne_nil : s ≠ []
  ne_dot : s ≠ ['.']
  ne_dots : s ≠ ['.', '.']

theorem isAlphanum_or_of_safe {c : Char} (h : unsafeSegment c = false) :
    c.isAlphanum = true ∨ c = '.' ∨ c = '_' ∨ c = '-' := by
  simpa only [unsafeSegment, Bool.not_eq_false', Bool.or_eq_true, beq_iff_eq, or_assoc] using h

/-- A plain character that is no edge is a letter or a digit. -/
theorem isAlphanum_of_not_edge {c : Char} (hsafe : unsafeSegment c = false)
    (hedge : segmentEdge c = false) : c.isAlphanum = true := by
  rcases isAlphanum_or_of_safe hsafe with halphanum | rfl | rfl | rfl
  · exact halphanum
  · cases hedge
  · cases hedge
  · cases hedge

theorem deviceSegment_of_edges (hne : s ≠ []) (hsafe : ∀ c ∈ s, unsafeSegment c = false)
    (hhead : ∀ c, s.head? = some c → segmentEdge c = false)
    (hlast : ∀ c, s.getLast? = some c → segmentEdge c = false) : DeviceSegment s := by
  have hdot : s.head? ≠ some '.' := by
    intro hdot
    cases hhead '.' hdot
  have hne_dot : s ≠ ['.'] := by
    rintro rfl
    exact hdot rfl
  have hne_dots : s ≠ ['.', '.'] := by
    rintro rfl
    exact hdot rfl
  have hslash : '/' ∉ s := by
    intro hmem
    exact (ascii_of_safe (hsafe '/' hmem)).2.2.1 rfl
  have hcomponent : components s = [s] := by
    have hparts := @components_joinWith [s] fun part hpart => by
      rw [List.mem_singleton.mp hpart]
      exact ⟨hne, hne_dot, hslash⟩
    rwa [joinWith_singleton] at hparts
  refine ⟨?_, ?_, ?_, hcomponent, hne, hne_dot, hne_dots⟩
  · intro c hc
    exact isAlphanum_or_of_safe (hsafe c hc)
  · intro c hc
    exact isAlphanum_of_not_edge (hsafe c (List.mem_of_mem_head? hc)) (hhead c hc)
  · intro c hc
    exact isAlphanum_of_not_edge (hsafe c (List.mem_of_getLast? hc)) (hlast c hc)

theorem deviceSegment_deviceDirectoryName (nfkd : String → String) (deviceName : Option String)
    (deviceId : ℕ) : DeviceSegment (deviceDirectoryName nfkd deviceName deviceId).toList := by
  rcases safeSegment_or_device nfkd deviceName deviceId with hsafe | hdevice
  · exact deviceSegment_of_edges hsafe.ne_nil hsafe.safe hsafe.head hsafe.last
  · rw [hdevice]
    refine deviceSegment_of_edges ?_ (safe_device deviceId) (head_device deviceId)
      (last_device deviceId)
    rw [toList_device]
    simp

/-- A segment that fits is its own segment, for every device. -/
theorem deviceDirectoryName_idem
    (hnfkd : ∀ text : String, (∀ c ∈ text.toList, c.val < 128) → nfkd text = text)
    (hlength : (deviceDirectoryName nfkd deviceName deviceId).toList.length ≤
      maxDeviceSegmentLength) (otherId : ℕ) :
    deviceDirectoryName nfkd (some (deviceDirectoryName nfkd deviceName deviceId)) otherId =
      deviceDirectoryName nfkd deviceName deviceId := by
  have hsegment : SafeSegment (deviceDirectoryName nfkd deviceName deviceId).toList := by
    rcases safeSegment_or_device nfkd deviceName deviceId with hsafe | hdevice
    · exact hsafe
    · rw [hdevice, length_device] at hlength
      rw [hdevice]
      unfold maxDeviceSegmentLength at hlength
      exact safeSegment_device (by omega)
  have hascii : nfkd (String.ofList (deviceDirectoryName nfkd deviceName deviceId).toList) =
      String.ofList (deviceDirectoryName nfkd deviceName deviceId).toList := by
    refine hnfkd _ fun c hc => ?_
    rw [String.toList_ofList] at hc
    exact (ascii_of_safe (hsegment.safe c hc)).1
  have hidem := hsegment.deviceDirectoryName_eq hascii otherId
  rwa [String.ofList_toList] at hidem

/-- The keys of devices are far shorter than the fallback of a segment can be. -/
theorem length_deviceDirectoryName_le (hid : (Nat.toDigits 10 deviceId).length ≤ 121) :
    (deviceDirectoryName nfkd deviceName deviceId).toList.length ≤ maxDeviceSegmentLength := by
  rcases safeSegment_or_device nfkd deviceName deviceId with hsafe | hdevice
  · exact hsafe.length
  · rw [hdevice, length_device]
    unfold maxDeviceSegmentLength
    omega

/-- The segment of every device is one plain component, for keys of up to 121 digits it fits,
and a segment that fits is the segment of the device that is called so. -/
theorem deviceDirectoryName_stable
    (hnfkd : ∀ text : String, (∀ c ∈ text.toList, c.val < 128) → nfkd text = text)
    (deviceName : Option String) (deviceId : ℕ) :
    DeviceSegment (deviceDirectoryName nfkd deviceName deviceId).toList ∧
      ((Nat.toDigits 10 deviceId).length ≤ 121 →
        (deviceDirectoryName nfkd deviceName deviceId).toList.length ≤ 128) ∧
      ((deviceDirectoryName nfkd deviceName deviceId).toList.length ≤ 128 →
        deviceDirectoryName nfkd (some (deviceDirectoryName nfkd deviceName deviceId)) deviceId =
          deviceDirectoryName nfkd deviceName deviceId) := by
  refine ⟨deviceSegment_deviceDirectoryName nfkd deviceName deviceId, ?_, ?_⟩
  · intro hid
    exact length_deviceDirectoryName_le hid
  · intro hlength
    exact deviceDirectoryName_idem hnfkd hlength deviceId

theorem deviceDirectoryName_stable_router :
    deviceDirectoryName id (some (deviceDirectoryName id (some "../Router  7/.") 7)) 7 =
      deviceDirectoryName id (some "../Router  7/.") 7 ∧
    deviceDirectoryName id (some "../Router  7/.") 7 = "Router-7" := by
  have hstable := @deviceDirectoryName_stable id (fun _ _ => rfl) (some "../Router  7/.") 7
  exact ⟨hstable.2.2 (hstable.2.1 (by decide)), by decide +kernel⟩

end ConfigBackup.DeviceSegments
