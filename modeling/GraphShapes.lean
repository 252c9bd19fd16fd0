import GraphShapes.Main
import GraphShapes.Proofs.NameTheorems
import GraphShapes.Proofs.StoreTheorems
import GraphShapes.Proofs.WalkTheorems
import GraphShapes.Proofs.EngineTheorems
import GraphShapes.Proofs.OrderTheorems
import GraphShapes.Proofs.ValidityTheorems
import GraphShapes.Proofs.ContractTheorems
import GraphShapes.Proofs.CountTheorems
import GraphShapes.Proofs.SortTheorems
import GraphShapes.Proofs.DefectTheorems
import GraphShapes.Proofs.ShapeTheorems
import GraphShapes.Proofs.RuleTheorems
import GraphShapes.Proofs.NonnegTheorems
import GraphShapes.Proofs.CheckedRules
import GraphShapes.Proofs.CheckedTheorems
import GraphShapes.Proofs.OutcomeTheorems
import GraphShapes.Proofs.GrowthTheorems
import GraphShapes.Proofs.SessionTheorems
import GraphShapes.Proofs.InfluenceTheorems
import GraphShapes.Proofs.RestrictionTheorems
import GraphShapes.Proofs.BakingTheorems
import GraphShapes.Proofs.BroadcastTheorems
import GraphShapes.Proofs.FloatTheorems
import GraphShapes.Proofs.GroupingTheorems
import GraphShapes.Proofs.ArithmeticTheorems
import GraphShapes.Proofs.ConversionTheorems
import GraphShapes.Proofs.ReshapeTheorems
import GraphShapes.Proofs.ScopeTheorems
import GraphShapes.Proofs.LiteralTheorems
import GraphShapes.Proofs.SharingTheorems
import GraphShapes.Proofs.OperandTheorems
import GraphShapes.Proofs.ToleranceTheorems
import GraphShapes.Proofs.DeclarationTheorems
import GraphShapes.Proofs.FreshnessTheorems
import GraphShapes.Proofs.WritingTheorems
import GraphShapes.Proofs.DocumentTheorems
import GraphShapes.Proofs.ReaderTheorems
import GraphShapes.Proofs.LineEndTheorems
import GraphShapes.Proofs.EncodingTheorems
import GraphShapes.Proofs.SourceTheorems
import GraphShapes.Proofs.RefusalTheorems
import GraphShapes.Proofs.BlameRules
import GraphShapes.Proofs.BlameTheorems
import GraphShapes.Proofs.ReportTheorems
import GraphShapes.Proofs.PathTheorems
import GraphShapes.Proofs.FormatTheorems
import GraphShapes.Proofs.FieldTheorems
import GraphShapes.Proofs.LayoutTheorems
import GraphShapes.Proofs.TransferTheorems
import GraphShapes.Proofs.SizeTheorems
import GraphShapes.Proofs.PermutationTheorems
import GraphShapes.Proofs.SliceTheorems
import GraphShapes.Proofs.ConcatTheorems
import GraphShapes.Proofs.CutTheorems
import GraphShapes.Proofs.StackTheorems
import GraphShapes.Proofs.ReorderTheorems
import GraphShapes.Proofs.TranspositionTheorems
import GraphShapes.Proofs.FusionTheorems
import GraphShapes.Proofs.EmbeddingTheorems
import GraphShapes.Proofs.PrecedenceTheorems
import GraphShapes.Proofs.InterruptionTheorems
import GraphShapes.Proofs.DescriptionTheorems
import GraphShapes.Proofs.RegistryTheorems
import GraphShapes.Proofs.LoadingTheorems
import GraphShapes.Proofs.DownloadTheorems
