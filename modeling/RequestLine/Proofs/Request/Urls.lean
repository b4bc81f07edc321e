import RequestLine.Proofs.Request.FullUrl

/-!
Which texts are the URLs of accepted lines.  A space is looked for anywhere in a URL, other blanks at
its ends only, so a tab or a no-break space can stand inside one.
-/

namespace RequestLine

open Text

theorem ofLine_url_iff_lineUrl {url : String} :
    (∃ line request, Request.ofLine line = .ok request ∧ request.url = url) ↔ LineUrl url := by
  apply Iff.intro
  · intro accepted
    obtain ⟨line, request, read, rfl⟩ := accepted
    exact Request.lineUrl_of_ofLine read
  · intro address
    exact ⟨_, _, Request.ofLine_shortLine address .get, rfl⟩

theorem lineUrl_iff {url : String} :
    LineUrl url ↔
      ' ' ∉ url.toList ∧ '|' ∉ url.toList ∧ Trimmed url.toList ∧
        ("http://".toList <+: url.toList ∨ "https://".toList <+: url.toList) ∧
        8 < url.utf8ByteSize := by
  apply Iff.intro
  · intro address
    have long := address.valid.length
    rw [String.ofList_toList] at long
    exact ⟨address.valid.no_space, address.no_bar, address.trimmed, address.valid.scheme, long⟩
  · intro described
    obtain ⟨noSpace, noBar, trimmed, scheme, long⟩ := described
    rw [← String.ofList_toList (s := url)] at long
    exact ⟨⟨noSpace, scheme, long⟩, trimmed, noBar⟩

/-- Between a scheme with an authority and a letter, any character can stand but the space and the
bar. -/
theorem lineUrl_around {c : Char} (space : c ≠ ' ') (bar : c ≠ '|') :
    LineUrl ("https://a.com/" ++ String.singleton c ++ "x") := by
  have spelled : ("https://a.com/" ++ String.singleton c ++ "x").toList =
      "https://a.com/".toList ++ ([c] ++ ['x']) := by simp
  apply lineUrl_iff.mpr
  rw [spelled]
  refine ⟨?_, ?_, ?_, .inr ?_, ?_⟩
  · simp [space.symm]
  · simp [bar.symm]
  · exact Trimmed.append (by decide) (by decide) (by decide) (by decide) [c]
  · exact (by decide : "https://".toList <+: "https://a.com/".toList).trans (List.prefix_append _ _)
  · rw [String.utf8ByteSize_append, String.utf8ByteSize_append]
    have scheme : "https://a.com/".utf8ByteSize = 14 := rfl
    omega

/-- A text is the URL of an accepted line exactly if it has no space and no bar in it, no blank at its
ends, a scheme and more than eight bytes.  Every blank but the space stands in some such URL. -/
theorem ofLine_url_blanks :
    (∀ url : String, (∃ line request, Request.ofLine line = .ok request ∧ request.url = url) ↔
      ' ' ∉ url.toList ∧ '|' ∉ url.toList ∧
        (∀ c, url.toList.head? = some c → isBlank c = false) ∧
        (∀ c, url.toList.getLast? = some c → isBlank c = false) ∧
        ("http://".toList <+: url.toList ∨ "https://".toList <+: url.toList) ∧
        8 < url.utf8ByteSize) ∧
    ∀ c, isBlank c = true → c ≠ ' ' →
      ∃ line request, Request.ofLine line = .ok request ∧ c ∈ request.url.toList := by
  refine ⟨?_, ?_⟩
  · intro url
    rw [ofLine_url_iff_lineUrl, lineUrl_iff, Trimmed, and_assoc]
  · intro c blank other
    have bar : c ≠ '|' := by
      rintro rfl
      contradiction
    obtain ⟨line, request, read, same⟩ := ofLine_url_iff_lineUrl.mpr (lineUrl_around other bar)
    exact ⟨line, request, read, by simp [same]⟩

theorem ofLine_url_tab :
    Request.ofLine "[HTTP GET | URL https://a.com/x\ty]" =
      .ok { method := .get, url := "https://a.com/x\ty" } ∧
    '\t' ∈ "https://a.com/x\ty".toList ∧ isBlank '\t' = true :=
  ⟨rfl, by decide, rfl⟩

end RequestLine
