import Slope.Hypermedia.Lease
import Slope.Lib.Split

/-!
# `Hypermedia.Location` — locations and the host rule

The grammar of `https://host/path` locations, and `parse_location` against it. The scan of the host keeps one
bit of state; `scanHost_iff` turns it into a rule about the dot-separated labels, none of which may be empty.

Hyphens are tested at the two ends of the host only. `WellFormedLabel` is the rule for a label of its own, and
`labels_wellFormed_iff` says what is missing: a dot next to a hyphen.
-/

namespace Slope.Hypermedia

open Slope HttpsOrigin HttpsRequest

/-! ## Hosts -/

def hostByte (byte : U8) : Bool := Ascii.isAsciiAlphanumeric byte || byte == hyphen || byte == dot

/-- The dot-separated labels of a host. -/
def labels (host : List U8) : List (List U8) := host.splitOn dot

/-- **The hosts of a location.** -/
structure WellFormedHost (host : List U8) : Prop where
  length : 1 ≤ host.length ∧ host.length ≤ 48
  bytes : ∀ b ∈ host, hostByte b = true
  labels_ne : ∀ label ∈ labels host, label ≠ []
  first : host.head? ≠ some hyphen
  last : host.getLast? ≠ some hyphen

/-- The scan in terms of labels: a pending dot needs a non-empty first label, and all later labels need to be
    non-empty. -/
theorem scanHost_iff (previousDot : Bool) (host : List U8) {first : List U8} {rest : List (List U8)}
    (hsplit : labels host = first :: rest) :
    scanHost previousDot host = some false ↔
      (∀ b ∈ host, hostByte b = true) ∧ (previousDot = true → first ≠ []) ∧ ∀ label ∈ rest, label ≠ [] := by
  induction host generalizing previousDot first rest with
  | nil =>
      obtain ⟨rfl, rfl⟩ : first = [] ∧ rest = [] := by simpa [labels, List.splitOn, eq_comm] using hsplit
      cases previousDot <;> simp [scanHost]
  | cons byte host ih =>
      obtain ⟨first', rest', hsplit'⟩ := Split.splitOn_eq_cons dot host
      show (if (!hostByte byte || (byte == dot && previousDot)) = true then none else scanHost (byte == dot) host)
        = some false ↔ _
      rw [List.forall_mem_cons]
      by_cases hdot : byte = dot
      · -- a dot closes the current label
        subst hdot
        rw [labels, Split.splitOn_cons_sep, hsplit'] at hsplit
        obtain ⟨rfl, rfl⟩ := List.cons.inj hsplit
        cases previousDot with
        | true => simp [hostByte]
        | false =>
            have hnext := ih true hsplit'
            simp [hostByte, hnext]
      · rw [labels, Split.splitOn_cons_ne hdot hsplit'] at hsplit
        obtain ⟨rfl, rfl⟩ := List.cons.inj hsplit
        have hnext := ih false hsplit'
        have hne : (byte == dot) = false := by simpa using hdot
        by_cases hvalid : hostByte byte = true
        · simp [hvalid, hne, hnext]
        · simp [hvalid]

/-- `HttpsOrigin::new` accepts exactly the hosts of the grammar. -/
theorem acceptable_iff (host : List U8) : HttpsOrigin.acceptable host = true ↔ WellFormedHost host := by
  obtain ⟨first, rest, hsplit⟩ := Split.splitOn_eq_cons dot host
  have hscan := scanHost_iff true host hsplit
  have hlabels : (∀ label ∈ labels host, label ≠ []) ↔ first ≠ [] ∧ ∀ label ∈ rest, label ≠ [] := by
    rw [labels, hsplit, List.forall_mem_cons]
  simp only [HttpsOrigin.acceptable, Bool.and_eq_true, Bool.not_eq_true', List.isEmpty_eq_false_iff,
    decide_eq_true_eq, beq_iff_eq, bne_iff_ne, ne_eq, hscan]
  constructor
  · rintro ⟨⟨⟨⟨hne, hlen⟩, hbytes, hfirst, hrest⟩, hhead⟩, hlast⟩
    exact ⟨⟨List.length_pos_iff.mpr hne, hlen⟩, hbytes, hlabels.mpr ⟨hfirst trivial, hrest⟩, hhead, hlast⟩
  · rintro ⟨⟨hpos, hlen⟩, hbytes, hlabel, hhead, hlast⟩
    obtain ⟨hfirst, hrest⟩ := hlabels.mp hlabel
    exact ⟨⟨⟨⟨List.length_pos_iff.mp hpos, hlen⟩, hbytes, fun _ => hfirst, hrest⟩, hhead⟩, hlast⟩

/-- A host holds no slash, so a location can be cut at its first one. -/
theorem WellFormedHost.slash_not_mem {host : List U8} (h : WellFormedHost host) : slash ∉ host := by
  intro hmem
  have := h.bytes slash hmem
  exact absurd this (by decide)

/-! ## Locations -/

/-- **The paths of a location**: nothing, or a slash and what follows it. -/
def WellFormedPath (path : List U8) : Prop :=
  path = [] ∨ (path.head? = some slash ∧ path.length ≤ 128 ∧
    ∀ b ∈ path, Ascii.isAsciiGraphic b = true ∧ b ≠ numberSign)

/-- **The grammar of locations.** -/
structure Locates (location host path : List U8) : Prop where
  location_eq : location = httpsScheme ++ (host ++ path)
  host : WellFormedHost host
  path : WellFormedPath path

/-- The path that is requested; a location without one means the root. -/
def requestedPath (path : List U8) : List U8 := if path = [] then [slash] else path

theorem acceptable_requestedPath {path : List U8} :
    HttpsRequest.acceptable (requestedPath path) = true ↔ WellFormedPath path := by
  rw [requestedPath, WellFormedPath]
  by_cases hnil : path = []
  · subst hnil
    simp only [if_pos, true_or, iff_true]
    decide
  · rw [if_neg hnil]
    simp only [HttpsRequest.acceptable, Bool.and_eq_true, beq_iff_eq, decide_eq_true_eq, List.all_eq_true, bne_iff_ne,
      hnil, false_or, and_assoc]
    rfl

/-- The first slash of a location's remainder is where its path begins. -/
theorem findIdx_slash {host path : List U8} (hhost : slash ∉ host) (hpath : path = [] ∨ path.head? = some slash) :
    (host ++ path).findIdx (· == slash) = host.length := by
  induction host with
  | nil =>
      rcases hpath with rfl | hhead
      · rfl
      · cases path with
        | nil => cases hhead
        | cons byte path => simp_all [List.findIdx_cons]
  | cons byte host ih =>
      rw [List.mem_cons, not_or] at hhost
      have hne : (byte == slash) = false := by simpa using Ne.symm hhost.1
      rw [List.cons_append, List.findIdx_cons, hne, ih hhost.2]
      rfl

/-- **`parse_location` in closed form**, over a remainder that is a host and a path. -/
theorem parseLocation_append {host path : List U8} (hhost : slash ∉ host)
    (hpath : path = [] ∨ path.head? = some slash) (budget : HttpBudget) :
    parseLocation (httpsScheme ++ (host ++ path)) budget
      = HttpsOrigin.new host >>= fun origin => HttpsRequest.new origin (requestedPath path) budget := by
  have hscheme : httpsScheme.isPrefixOf? (httpsScheme ++ (host ++ path)) = some (host ++ path) := by
    rw [List.isPrefixOf?_eq_some_iff_append_eq]
  have hsplit := findIdx_slash hhost hpath
  have hhostSlice : sliceTo (ε := HypermediaError) (host ++ path) host.length = .ok host := by
    rw [sliceTo_eq (by simp), List.take_left]
  have hpathSlice : locationPath (host ++ path) host.length = .ok (requestedPath path) := by
    rw [locationPath, requestedPath]
    by_cases hnil : path = []
    · simp [hnil, pure, Except.pure]
    · have hne : ¬ host.length = (host ++ path).length := by
        have := List.length_pos_iff.mpr hnil
        rw [List.length_append]
        omega
      rw [if_neg hnil, if_neg hne, sliceFrom_eq (by simp), List.drop_left]
  rw [parseLocation, hscheme]
  simp only [hsplit, hhostSlice, hpathSlice, bind, Except.bind]

/-- Every remainder is a part without a slash and a part that is empty or starts with one. -/
theorem exists_split_slash (remainder : List U8) :
    ∃ host path, remainder = host ++ path ∧ slash ∉ host ∧ (path = [] ∨ path.head? = some slash) := by
  induction remainder with
  | nil => exact ⟨[], [], rfl, by simp, Or.inl rfl⟩
  | cons byte remainder ih =>
      by_cases hbyte : byte = slash
      · exact ⟨[], byte :: remainder, rfl, by simp, Or.inr (by simp [hbyte])⟩
      · obtain ⟨host, path, rfl, hhost, hpath⟩ := ih
        exact ⟨byte :: host, path, rfl, by simp [hhost, Ne.symm hbyte], hpath⟩

theorem WellFormedPath.edge {path : List U8} (h : WellFormedPath path) : path = [] ∨ path.head? = some slash :=
  h.imp id And.left

/-- `parse_location` accepts the locations of the grammar and builds the canonical request. -/
theorem parseLocation_ok {location : List U8} {budget : HttpBudget} {r : HttpsRequest} :
    parseLocation location budget = .ok r ↔ budget.isValid = true ∧ ∃ host path, Locates location host path ∧
      r = .canonical (.canonical host) (requestedPath path) budget := by
  constructor
  · intro h
    -- the prefix must be there, and the remainder is cut at its first slash
    obtain ⟨remainder, hscheme⟩ : ∃ remainder, httpsScheme.isPrefixOf? location = some remainder := by
      cases hscheme : httpsScheme.isPrefixOf? location with
      | none => rw [parseLocation, hscheme] at h; cases h
      | some remainder => exact ⟨remainder, rfl⟩
    obtain rfl := List.isPrefixOf?_eq_some_iff_append_eq.mp hscheme
    obtain ⟨host, path, rfl, hhost, hpath⟩ := exists_split_slash remainder
    rw [parseLocation_append hhost hpath] at h
    obtain ⟨origin, horigin, hrequest⟩ := bind_ok h
    obtain ⟨hacc, rfl⟩ := HttpsOrigin.new_ok.mp horigin
    obtain ⟨hbudget, hpathOk, rfl⟩ := HttpsRequest.new_ok.mp hrequest
    exact ⟨hbudget, host, path,
      ⟨rfl, (acceptable_iff host).mp hacc, acceptable_requestedPath.mp hpathOk⟩, rfl⟩
  · rintro ⟨hbudget, host, path, ⟨rfl, hhost, hpath⟩, rfl⟩
    rw [parseLocation_append hhost.slash_not_mem hpath.edge,
      HttpsOrigin.new_ok.mpr ⟨(acceptable_iff host).mpr hhost, rfl⟩]
    exact HttpsRequest.new_ok.mpr ⟨hbudget, acceptable_requestedPath.mpr hpath, rfl⟩

theorem requestedPath_ne_nil (path : List U8) : requestedPath path ≠ [] := by
  rw [requestedPath]
  split
  · simp
  · assumption

/-- What a parsed request says: the host in lower case and the requested path. -/
theorem canonical_reads {host path : List U8} (hhost : WellFormedHost host) (hpath : WellFormedPath path)
    (budget : HttpBudget) :
    (HttpsRequest.canonical (.canonical host) (requestedPath path) budget).origin.hostBytes
        = .ok (host.map Ascii.toAsciiLowercase) ∧
      (HttpsRequest.canonical (.canonical host) (requestedPath path) budget).pathBytes
        = .ok (requestedPath path) :=
  ⟨HttpsOrigin.hostBytes_canonical hhost.length.2,
    HttpsRequest.pathBytes_canonical
      (HttpsRequest.length_le_of_acceptable (acceptable_requestedPath.mpr hpath)).2⟩

/-- Reading the request of a location back as a location gives the request. -/
theorem parseLocation_canonical {host path : List U8} (hhost : WellFormedHost host) (hpath : WellFormedPath path)
    {budget : HttpBudget} (hbudget : budget.isValid = true) :
    parseLocation (httpsScheme ++ (host.map Ascii.toAsciiLowercase ++ requestedPath path)) budget
      = .ok (.canonical (.canonical host) (requestedPath path) budget) := by
  have hlower : WellFormedHost (host.map Ascii.toAsciiLowercase) := by
    rw [← acceptable_iff, HttpsOrigin.acceptable_lower, acceptable_iff]
    exact hhost
  have hfull : requestedPath (requestedPath path) = requestedPath path := if_neg (requestedPath_ne_nil path)
  have hrequested : WellFormedPath (requestedPath path) := by
    rw [← acceptable_requestedPath, hfull, acceptable_requestedPath]
    exact hpath
  refine parseLocation_ok.mpr ⟨hbudget, _, _, ⟨rfl, hlower, hrequested⟩, ?_⟩
  rw [HttpsOrigin.canonical_lower, hfull]

/-- Canonical origins are equal exactly when the hosts are, up to case. -/
theorem canonical_eq_iff {host host' : List U8} (h : WellFormedHost host) (h' : WellFormedHost host') :
    HttpsOrigin.canonical host = .canonical host' ↔
      host.map Ascii.toAsciiLowercase = host'.map Ascii.toAsciiLowercase := by
  constructor
  · intro heq
    have hread := HttpsOrigin.hostBytes_canonical h.length.2
    rw [heq, HttpsOrigin.hostBytes_canonical h'.length.2] at hread
    exact (Except.ok.inj hread).symm
  · intro heq
    rw [← HttpsOrigin.canonical_lower host, heq, HttpsOrigin.canonical_lower]

/-- **Locations, exactly.** A location is accepted just when the budget is valid and it is `https://`, a
    well-formed host and a well-formed path; the request then reads back as the host in lower case, the path
    (the root for an empty one) and the budget; written out as a location and parsed again it gives itself; and
    two accepted hosts have equal origins just when they are equal up to ASCII case. -/
theorem locations_exact :
    (∀ location budget, (∃ r, parseLocation location budget = .ok r) ↔
      budget.isValid = true ∧ ∃ host path, Locates location host path) ∧
    (∀ location budget r host path, parseLocation location budget = .ok r → Locates location host path →
      r.origin.hostBytes = .ok (host.map Ascii.toAsciiLowercase) ∧
        r.pathBytes = .ok (if path = [] then [slash] else path) ∧ r.budget = budget) ∧
    (∀ location budget r, parseLocation location budget = .ok r →
      ∃ host path, r.origin.hostBytes = .ok host ∧ r.pathBytes = .ok path ∧
        parseLocation (httpsScheme ++ (host ++ path)) r.budget = .ok r) ∧
    ∀ host host' o o', HttpsOrigin.new host = .ok o → HttpsOrigin.new host' = .ok o' →
      (o = o' ↔ host.map Ascii.toAsciiLowercase = host'.map Ascii.toAsciiLowercase) := by
  refine ⟨?_, ?_, ?_, ?_⟩
  · intro location budget
    constructor
    · rintro ⟨r, hr⟩
      obtain ⟨hbudget, host, path, hloc, -⟩ := parseLocation_ok.mp hr
      exact ⟨hbudget, host, path, hloc⟩
    · rintro ⟨hbudget, host, path, hloc⟩
      exact ⟨_, parseLocation_ok.mpr ⟨hbudget, host, path, hloc, rfl⟩⟩
  · rintro location budget r host path hr ⟨rfl, hhost, hpath⟩
    rw [parseLocation_append hhost.slash_not_mem hpath.edge] at hr
    obtain ⟨origin, horigin, hrequest⟩ := bind_ok hr
    obtain ⟨-, rfl⟩ := HttpsOrigin.new_ok.mp horigin
    obtain ⟨-, -, rfl⟩ := HttpsRequest.new_ok.mp hrequest
    obtain ⟨hreadHost, hreadPath⟩ := canonical_reads hhost hpath budget
    exact ⟨hreadHost, hreadPath, rfl⟩
  · intro location budget r hr
    obtain ⟨hbudget, host, path, hloc, rfl⟩ := parseLocation_ok.mp hr
    obtain ⟨hreadHost, hreadPath⟩ := canonical_reads hloc.host hloc.path budget
    exact ⟨_, _, hreadHost, hreadPath, parseLocation_canonical hloc.host hloc.path hbudget⟩
  · intro host host' o o' ho ho'
    obtain ⟨hacc, rfl⟩ := HttpsOrigin.new_ok.mp ho
    obtain ⟨hacc', rfl⟩ := HttpsOrigin.new_ok.mp ho'
    exact canonical_eq_iff ((acceptable_iff host).mp hacc) ((acceptable_iff host').mp hacc')

/-- `https://A.b` with the default budget. -/
theorem locations_sample :
    ∃ r, parseLocation (httpsScheme ++ [0x41, 0x2e, 0x62]) ⟨1024, 16384, 16, 1⟩ = .ok r ∧
      r.origin.hostBytes = .ok [0x61, 0x2e, 0x62] ∧ r.pathBytes = .ok [slash] ∧
      parseLocation (httpsScheme ++ [0x61, 0x2e, 0x62, slash]) r.budget = .ok r := by
  have hloc : Locates (httpsScheme ++ [0x41, 0x2e, 0x62]) [0x41, 0x2e, 0x62] [] :=
    ⟨rfl, (acceptable_iff _).mp (by decide), Or.inl rfl⟩
  obtain ⟨r, hr⟩ := (locations_exact.1 (httpsScheme ++ [0x41, 0x2e, 0x62]) ⟨1024, 16384, 16, 1⟩).mpr
    ⟨by decide, _, _, hloc⟩
  obtain ⟨hhost, hpath, -⟩ := locations_exact.2.1 _ _ _ _ _ hr hloc
  obtain ⟨host, path, hhost', hpath', hagain⟩ := locations_exact.2.2.1 _ _ _ hr
  obtain rfl : [0x61, 0x2e, 0x62] = host := Except.ok.inj (hhost.symm.trans hhost')
  obtain rfl : [slash] = path := Except.ok.inj (hpath.symm.trans hpath')
  exact ⟨r, hr, hhost, hpath, hagain⟩

/-! ## Labels -/

/-- **A well-formed label**: letters, digits and hyphens, with no hyphen at either end. -/
structure WellFormedLabel (label : List U8) : Prop where
  nonempty : label ≠ []
  bytes : ∀ b ∈ label, Ascii.isAsciiAlphanumeric b = true ∨ b = hyphen
  first : label.head? ≠ some hyphen
  last : label.getLast? ≠ some hyphen

/-- A dot and a hyphen are neighbours in the host. -/
def HyphenAtDot (host : List U8) : Prop := [dot, hyphen] <:+: host ∨ [hyphen, dot] <:+: host

/-- What the scan lacks for the label rule. -/
theorem labels_wellFormed_iff {host : List U8} (h : WellFormedHost host) :
    (∀ label ∈ labels host, WellFormedLabel label) ↔ ¬ HyphenAtDot host := by
  have hne : hyphen ≠ dot := by decide
  obtain ⟨first, rest, hsplit⟩ := Split.splitOn_eq_cons dot host
  have hbegin := Split.tail_head?_ne_iff hne host
  have hend := Split.getLast?_ne_iff hne host
  rw [HyphenAtDot, not_or]
  constructor
  · intro hlabels
    refine ⟨hbegin.mp ?_, (hend.mp fun label hlabel => (hlabels label hlabel).last).2⟩
    intro label hlabel
    exact (hlabels label (List.mem_of_mem_tail hlabel)).first
  · rintro ⟨hdot, hhyphen⟩ label hlabel
    refine ⟨h.labels_ne label hlabel, ?_, ?_, hend.mpr ⟨h.last, hhyphen⟩ label hlabel⟩
    · intro b hb
      obtain ⟨hmem, hbdot⟩ := Split.mem_of_mem_piece hlabel hb
      have hbyte := h.bytes b hmem
      simpa [hostByte, hbdot] using hbyte
    · have htail := hbegin.mpr hdot
      rw [hsplit, List.tail_cons] at htail
      rw [labels, hsplit, List.mem_cons] at hlabel
      rcases hlabel with rfl | hlabel
      · exact fun hhead => h.first ((Split.head?_first hne hsplit).mp hhead)
      · exact htail label hlabel

/-- **The hosts that `HttpsOrigin::new` accepts**, called directly, on the part of a location before its first
    slash, or on the host slice of a wire request. -/
inductive AcceptsHost : List U8 → Prop where
  | direct {host : List U8} {o : HttpsOrigin} (h : HttpsOrigin.new host = .ok o) : AcceptsHost host
  | location {remainder : List U8} {budget : HttpBudget} {r : HttpsRequest}
      (h : parseLocation (httpsScheme ++ remainder) budget = .ok r) :
      AcceptsHost (remainder.take (remainder.findIdx (· == slash)))
  | ipc {w : HttpIpcRequest} {r : HttpsRequest} (h : w.request = .ok r) : AcceptsHost w.hostSlice

theorem AcceptsHost.wellFormed {host : List U8} (h : AcceptsHost host) : WellFormedHost host := by
  rw [← acceptable_iff]
  cases h with
  | direct h => exact (HttpsOrigin.new_ok.mp h).1
  | @location remainder budget r h =>
      obtain ⟨host, path, rfl, hhost, hpath⟩ := exists_split_slash remainder
      rw [parseLocation_append hhost hpath] at h
      obtain ⟨origin, horigin, -⟩ := bind_ok h
      rw [findIdx_slash hhost hpath, List.take_left]
      exact (HttpsOrigin.new_ok.mp horigin).1
  | ipc h => exact (HttpIpcRequest.request_ok.mp h).2.1

/-- **The label rule, exactly.** In a host that is accepted, on whichever way, every dot-separated label is
    well-formed if and only if no dot stands next to a hyphen. -/
theorem accepted_labels_iff {host : List U8} (h : AcceptsHost host) :
    (∀ label ∈ labels host, WellFormedLabel label) ↔ ¬ HyphenAtDot host :=
  labels_wellFormed_iff h.wellFormed

/-- The labels of `a.b`. -/
theorem accepted_labels_sample :
    AcceptsHost [0x61, 0x2e, 0x62] ∧ ∀ label ∈ labels [0x61, 0x2e, 0x62], WellFormedLabel label := by
  have h : AcceptsHost [0x61, 0x2e, 0x62] := .direct (HttpsOrigin.new_ok.mpr ⟨by decide, rfl⟩)
  refine ⟨h, (accepted_labels_iff h).mpr ?_⟩
  rw [HyphenAtDot]
  decide

/-- **`a.-b` is accepted**, and its second label begins with a hyphen. -/
theorem hyphen_label_accepted :
    AcceptsHost [0x61, 0x2e, 0x2d, 0x62] ∧ [0x2d, 0x62] ∈ labels [0x61, 0x2e, 0x2d, 0x62] ∧
      ¬ WellFormedLabel [0x2d, 0x62] := by
  refine ⟨.direct (HttpsOrigin.new_ok.mpr ⟨by decide, rfl⟩), by decide, ?_⟩
  intro h
  exact h.first rfl

end Slope.Hypermedia
