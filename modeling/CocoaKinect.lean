import CocoaKinect.Export.Closed
import CocoaKinect.Export.StlFile
import CocoaKinect.Export.TextFile
import CocoaKinect.Export.Bounds
import CocoaKinect.Export.Coherence
import CocoaKinect.Export.Filter
import CocoaKinect.Export.Volume
import CocoaKinect.View.Preview
import CocoaKinect.Kinect.StreamBuffers
import CocoaKinect.Kinect.Transfers
import CocoaKinect.Kinect.Devices
import CocoaKinect.Kinect.Command
import CocoaKinect.App.Pipeline
import CocoaKinect.App.DepthBuffers
import CocoaKinect.App.Session
import CocoaKinect.App.StopWait
import CocoaKinect.App.StatusLine
import CocoaKinect.App.LedTilt
import CocoaKinect.App.VideoSwitch
