import ReadingBench.Proofs.Sql.Reader

namespace ReadingBench.Sql.Value

theorem ofUInt64_literal {a b : UInt64} (h : (ofUInt64 a).literal = (ofUInt64 b).literal) : a = b := by
  have hsigned : Decimal.signed a.toInt64.toInt = Decimal.signed b.toInt64.toInt :=
    String.ofList_injective h
  have hread := Decimal.readInt64?_signed a.toInt64
  rw [hsigned, Decimal.readInt64?_signed, Option.some.injEq] at hread
  simpa using (congrArg Int64.toUInt64 hread).symm

theorem text_literal {s t : String} (h : (text s).literal = (text t).literal) : s = t := by
  have hquote : Text.quote '\'' s.toList = Text.quote '\'' t.toList := String.ofList_injective h
  have hend : ([] : List Char).head? ≠ some '\'' := by simp
  have hread := Text.readBody?_body '\'' s.toList hend
  have hbody : Text.quotedBody '\'' s.toList = Text.quotedBody '\'' t.toList := by
    simpa [Text.quote] using hquote
  rw [hbody, Text.readBody?_body '\'' t.toList hend] at hread
  simp only [Option.some.injEq, Prod.mk.injEq, and_true] at hread
  exact (String.toList_inj.1 hread).symm

end ReadingBench.Sql.Value
